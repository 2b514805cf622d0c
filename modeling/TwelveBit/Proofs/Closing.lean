import TwelveBit.Proofs.Tally
import TwelveBit.Proofs.Waiting
/-!
Closed lines. Nothing opens a line again, so once it is closed no request is accepted and no step
begins, whatever is done to the machine. A step that has begun comes to one delivery and one
instruction at most.
-/
namespace TwelveBit
variable {σ : Type} {l : Line} {es : List Happening}

def Happening.hook : Happening → Bool
  | .asked _ _ | .told (.delivered _ _) | .told (.executed _) => true
  | .acted _ _ | .paused _ | .told .closed | .told (.taken _) | .told (.fetched _)
  | .told .halted | .told .abandoned => false

namespace Line

theorem accepting_of_closed (hc : l.closed = true) : l.accepting = false := by
  simp only [accepting, hc, Bool.not_true, Bool.and_false, Bool.false_and]

theorem closed_perform (hc : l.closed = true) (a : Action) : (l.perform a).closed = true := by
  cases a with
  | setEnabled on => exact hc
  | close => rfl
  | request irq =>
    rw [perform, request, accepting_of_closed hc]
    exact hc

theorem closed_follow (hc : l.closed = true) (e : Happening) : (l.follow e).closed = true := by
  cases e with
  | acted a reply => exact closed_perform hc a
  | asked | paused => exact hc
  | told e =>
    cases e with
    | executed i =>
      simp only [follow]
      cases i.switch? <;> exact hc
    | closed | taken | delivered | fetched | halted | abandoned => exact hc

theorem closed_followAll (hc : l.closed = true) (es : List Happening) :
    (l.followAll es).closed = true := by
  induction es generalizing l with
  | nil => exact hc
  | cons e es ih => exact ih (closed_follow hc e)

theorem closed_performAll (hc : l.closed = true) (acts : List Action) :
    (l.performAll acts).closed = true := by
  rw [← followAll_answers]
  exact closed_followAll hc _

/-- Where the line is closed, hosts do not change what is pending. -/
theorem pending_performAll_of_closed (hc : l.closed = true) (acts : List Action) :
    (l.performAll acts).pending = l.pending := by
  induction acts generalizing l with
  | nil => rfl
  | cons a acts ih =>
    have first : (l.perform a).pending = l.pending := by
      cases a with
      | setEnabled | close => rfl
      | request irq =>
        rw [perform, request, accepting_of_closed hc]
        rfl
    exact (ih (closed_perform hc a)).trans first

/-- Once the line is closed, every request is refused. -/
theorem refused_of_closed (hc : l.closed = true) (hb : l.BearsAll es) {irq : Interrupt}
    {reply : Option Bool} (hr : .acted (.request irq) reply ∈ es) : reply = some false := by
  induction es generalizing l with
  | nil => cases hr
  | cons e es ih =>
    obtain ⟨first, others⟩ := hb
    cases hr with
    | head =>
      have answer : reply = some l.accepting := first
      rw [answer, accepting_of_closed hc]
    | tail _ hr => exact ih (closed_follow hc e) others hr

theorem missed_of_closed (hc : l.closed = true) (hb : l.BearsAll es) :
    (l.followAll es).missed = l.missed + es.countP Happening.posted := by
  rw [missed_followAll hb]
  congr 1
  refine List.countP_congr fun e he => ?_
  cases e with
  | asked | told | paused => rfl
  | acted a reply =>
    cases a with
    | setEnabled | close => rfl
    | request irq =>
      rw [refused_of_closed hc hb he]
      rfl

end Line

namespace Operation
variable {m : Machine}

/-- Apart from resets, every operation is accounted for by what happens in it. -/
theorem account_apply {op : Operation} (hop : ∀ entry, op ≠ .reset entry) (m : Machine) :
    Account m (op.apply m) (op.history m) := by
  cases op with
  | reset entry => exact absurd rfl (hop entry)
  | load bytes => exact Machine.account_load bytes m
  | loadRom | write | writeLong | copy => exact Machine.account_onMemory _ m
  | clearWritable => exact .nil rfl rfl
  | act a => exact .answers m [a]
  | step hosts s => exact Machine.account_step hosts m s
  | wake hosts s => exact Machine.account_wake hosts m s

theorem closed_apply (hc : m.line.closed = true) (op : Operation) :
    (op.apply m).line.closed = true := by
  by_cases hop : ∃ entry, op = .reset entry
  · obtain ⟨entry, rfl⟩ := hop
    exact hc
  · rw [(account_apply (fun entry he => hop ⟨entry, he⟩) m).line]
    exact Line.closed_followAll hc _

theorem closed_applyAll (hc : m.line.closed = true) (ops : List Operation) :
    (applyAll ops m).line.closed = true := by
  induction ops generalizing m with
  | nil => exact hc
  | cons op ops ih => exact ih (closed_apply hc op)

end Operation

namespace Machine
variable {m m' : Machine} {h : Host σ} {s : σ} {stop : Option Stop}

theorem Underway.account (hu : Underway h m s es stop m') : Account m m' es := by
  induction hu with
  | begun => exact account_step h m s
  | woken g t waits ih => exact ih.append (account_wake g _ t)

theorem Underway.tallied (hu : Underway h m s es stop m') : Tallied m es m' := by
  induction hu with
  | begun => exact (attests_tallied h).step m s
  | woken g t waits ih => exact ih.append ((attests_tallied g).wake _ t)

theorem Underway.countsOne (hu : Underway h m s es stop m') :
    CountsOne m.instructions stop m'.instructions := by
  induction hu with
  | begun => exact step_countsOne h m s
  | @woken τ es k g t waits ih =>
    rw [← ih.waits rfl]
    exact wake_countsOne g k t

theorem Underway.delivered_le (hu : Underway h m s es stop m') :
    (es.filterMap Happening.delivered?).length ≤ 1 := by
  induction hu with
  | begun => exact (step_course h m s).delivered_le
  | woken g t waits ih =>
    rw [List.filterMap_append,
      Happening.delivered_of_quiet fun _ he => quiet_of_mem_wakeHistory he, List.append_nil]
    exact ih

theorem Underway.executed_le (hu : Underway h m s es stop m') :
    (es.filterMap Happening.executed?).length ≤ 1 := by
  have hle := hu.countsOne.le
  rw [hu.tallied] at hle
  exact Nat.add_le_add_iff_left.1 hle

structure Sealed (m : Machine) : Prop where
  closed : m.line.closed = true
  refuses : ∀ (op : Operation) irq reply,
    .acted (.request irq) reply ∈ op.history m → reply = some false
  misses : ∀ op : Operation, (∀ entry, op ≠ .reset entry) →
    (op.apply m).line.missed = m.line.missed + (op.history m).countP Happening.posted
  stops : ∀ {σ : Type} (h : Host σ) (s : σ), (m.step h s).1 = some (.exit .stopped)
  keeps : ∀ {σ : Type} (h : Host σ) (s : σ), ∃ l : Line,
    (m.step h s).2.1 = { m with line := l } ∧ l.pending = m.line.pending
  unobserved : ∀ {σ : Type} (h : Host σ) (s : σ), ∀ e ∈ m.stepHistory h s, e.hook = false

theorem sealed_of_closed (hc : m.line.closed = true) : m.Sealed := by
  have found {σ : Type} (h : Host σ) (s : σ) : (h.approach .closed m.line s).1.closed = true :=
    Line.closed_performAll hc _
  constructor
  case closed => exact hc
  case refuses =>
    intro op irq reply hr
    -- a reset asks nothing of the line, and it alone starts a new account
    by_cases hop : ∃ entry, op = .reset entry
    · obtain ⟨entry, rfl⟩ := hop
      cases hr
    · have ha := Operation.account_apply (fun entry he => hop ⟨entry, he⟩) m
      exact Line.refused_of_closed hc ha.bears hr
  case misses =>
    intro op hop
    have ha := Operation.account_apply hop m
    rw [ha.line]
    exact Line.missed_of_closed hc ha.bears
  case stops =>
    intro σ h s
    obtain ⟨acts, hstop, -, -⟩ := stepHistory_of_closed (found h s)
    exact hstop
  case keeps =>
    intro σ h s
    obtain ⟨acts, -, hm, -⟩ := stepHistory_of_closed (found h s)
    exact ⟨_, hm, Line.pending_performAll_of_closed hc acts⟩
  case unobserved =>
    intro σ h s e he
    obtain ⟨acts, -, -, hes⟩ := stepHistory_of_closed (found h s)
    rw [hes] at he
    rcases List.mem_append.1 he with he | he
    · obtain ⟨a, -, reply, rfl⟩ := Line.acted_of_mem_answers he
      rfl
    · cases List.mem_singleton.1 he
      rfl

end Machine

/-- Closing the line is final. Whatever is done to the machine afterwards, requests are refused and
missed, and a step stops before it has begun. Where the line is closed while a step is underway,
the requests that follow are refused too, and there is one delivery and one instruction at most in
that step, however often it is left waiting. -/
theorem closing_is_final :
    (∀ m : Machine, m.line.closed = true → ∀ ops, (Operation.applyAll ops m).Sealed) ∧
    ∀ {σ : Type} (h : Host σ) (m : Machine) (s : σ) (es : List Happening) (stop : Option Stop)
      (m' : Machine), Machine.Underway h m s es stop m' →
      (es.filterMap Happening.delivered?).length ≤ 1 ∧
      (es.filterMap Happening.executed?).length ≤ 1 ∧
      ∀ pre reply post, es = pre ++ .acted .close reply :: post →
        m'.line.closed = true ∧
        (∀ irq answer, .acted (.request irq) answer ∈ post → answer = some false) ∧
        m'.line.missed = (m.line.followAll pre).missed + post.countP Happening.posted := by
  refine ⟨fun m hc ops => Machine.sealed_of_closed (Operation.closed_applyAll hc ops), ?_⟩
  intro σ h m s es stop m' underway
  refine ⟨underway.delivered_le, underway.executed_le, fun pre reply post he => ?_⟩
  have account := underway.account
  have bears := account.bears
  rw [he, Line.bearsAll_append] at bears
  have hc : ((m.line.followAll pre).follow (.acted .close reply)).closed = true := rfl
  have line : m'.line = ((m.line.followAll pre).follow (.acted .close reply)).followAll post := by
    rw [account.line, he, Line.followAll_append]
    rfl
  rw [line]
  exact ⟨Line.closed_followAll hc post, fun irq answer ha => Line.refused_of_closed hc bears.2.2 ha,
    Line.missed_of_closed hc bears.2.2⟩

/-- A key is pending when a host closes the line in the middle of a step. The step still takes the
key and runs the first instruction of its handler; the next key is refused, and no other step
begins. -/
theorem key_is_the_last_to_come_through :
    let m := Operation.applyAll
      [.loadRom 0 [2, 0], .reset 16, .act (.setEnabled true), .act (.request (.key 65 true))]
      (.new ⟨16, 0, 0, 32, by decide⟩)
    let h : Host Unit :=
      { meanwhile := fun a _ s => (if a = .take then [.close, .request (.key 66 true)] else [], s) }
    let k := (m.step h ()).2.1
    m.line.closed = false ∧ k.line.closed = true ∧ k.interrupts = 1 ∧ k.instructions = 1 ∧
      k.line.missed = 1 ∧ (k.perform [.request .timer]).line.missed = 2 ∧
      (k.step Host.idle ()).1 = some (.exit .stopped) ∧
      ((m.stepHistory h ()).filterMap Happening.delivered?).length ≤ 1 := by
  intro m h k
  have hc : k.line.closed = true := by decide +kernel
  have missed : k.line.missed = 1 := by decide +kernel
  obtain ⟨seals, underway⟩ := closing_is_final
  have sealed : k.Sealed := seals k hc []
  have refused (n : Machine) (hn : n.Sealed) (h1 : n.line.missed = 1) :
      (n.perform [.request .timer]).line.missed = 2 := by
    have hm := hn.misses (.act (.request .timer)) fun entry he => Operation.noConfusion he
    exact hm.trans (congrArg (· + 1) h1)
  refine ⟨by decide +kernel, hc, by decide +kernel, by decide +kernel, missed,
    refused k sealed missed, sealed.stops Host.idle (), (underway h m () _ _ _ .begun).1⟩

end TwelveBit
