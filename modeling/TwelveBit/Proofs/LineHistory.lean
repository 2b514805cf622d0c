import TwelveBit.Proofs.Chronicle
import TwelveBit.Proofs.StepOutcome
/-!
What a chronicle says of the line. From what hosts did to it and what the machine told follow the
state of the line at every point, the answer to every request and the number of deliveries; a
machine changes its line only where its chronicle says so.
-/
namespace TwelveBit

namespace Line

def follow (l : Line) : Happening → Line
  | .acted a _ => l.perform a
  | .told (.taken _) => l.take.2
  | .told (.executed i) =>
    match i.switch? with
    | some on => l.setEnabled on
    | none => l
  | _ => l

def followAll (l : Line) (es : List Happening) : Line := es.foldl follow l

def Bears (l : Line) : Happening → Prop
  | .acted a reply => reply = l.reply? a
  | .told (.taken irq) => l.pending = some irq
  | .told .closed => l.closed = true
  | _ => True

def BearsAll (l : Line) : List Happening → Prop
  | [] => True
  | e :: es => l.Bears e ∧ (l.follow e).BearsAll es

theorem followAll_append (l : Line) (es fs : List Happening) :
    l.followAll (es ++ fs) = (l.followAll es).followAll fs := List.foldl_append

theorem bearsAll_append (l : Line) (es fs : List Happening) :
    l.BearsAll (es ++ fs) ↔ l.BearsAll es ∧ (l.followAll es).BearsAll fs := by
  induction es generalizing l with
  | nil => exact (iff_of_eq (true_and _)).symm
  | cons e es ih =>
    simp only [List.cons_append, BearsAll, ih, and_assoc]
    rfl

theorem followAll_answers (l : Line) (acts : List Action) :
    l.followAll (l.answers acts) = l.performAll acts := by
  induction acts generalizing l with
  | nil => rfl
  | cons a acts ih => exact ih (l.perform a)

theorem bearsAll_answers (l : Line) (acts : List Action) : l.BearsAll (l.answers acts) := by
  induction acts generalizing l with
  | nil => trivial
  | cons a acts ih => exact ⟨rfl, ih (l.perform a)⟩

theorem answers_append (l : Line) (acts acts' : List Action) :
    l.answers (acts ++ acts') = l.answers acts ++ (l.performAll acts).answers acts' := by
  induction acts generalizing l with
  | nil => rfl
  | cons a acts ih => exact congrArg _ (ih (l.perform a))

theorem performAll_append (l : Line) (acts acts' : List Action) :
    l.performAll (acts ++ acts') = (l.performAll acts).performAll acts' := List.foldl_append

theorem accepting_iff (l : Line) :
    l.accepting = true ↔ l.closed = false ∧ l.enabled = true ∧ l.pending = none := by
  simp only [accepting, Bool.and_eq_true, Bool.not_eq_true', Option.isNone_iff_eq_none]
  exact ⟨fun ⟨⟨he, hc⟩, hp⟩ => ⟨hc, he, hp⟩, fun ⟨hc, he, hp⟩ => ⟨⟨he, hc⟩, hp⟩⟩

/-- Hosts cannot take a pending interrupt back, nor put another in its place. -/
theorem pending_performAll {l : Line} {irq : Interrupt} (hp : l.pending = some irq)
    (acts : List Action) : (l.performAll acts).pending = some irq := by
  induction acts generalizing l with
  | nil => exact hp
  | cons a acts ih =>
    refine ih ?_
    cases a with
    | setEnabled on => exact hp
    | close => exact hp
    | request other =>
      have hfull : l.accepting = false := by
        simp only [accepting, hp, Option.isNone_some, Bool.and_false]
      simp only [perform, request, hfull, Bool.false_eq_true, if_false, hp]

end Line

namespace Happening

def accepted? : Happening → Option Interrupt
  | .acted (.request irq) (some true) => some irq
  | _ => none

def posted : Happening → Bool
  | .acted (.request _) _ => true
  | _ => false

def refused : Happening → Bool
  | .acted (.request _) (some false) => true
  | _ => false

def taken? : Happening → Option Interrupt
  | .told (.taken irq) => some irq
  | _ => none

def delivered? : Happening → Option Interrupt
  | .told (.delivered irq _) => some irq
  | _ => none

def Quiet : Happening → Prop
  | .told .closed | .told (.taken _) | .told (.delivered _ _) => False
  | _ => True

theorem Quiet.taken?_eq {e : Happening} (h : e.Quiet) : e.taken? = none := by
  cases e with
  | told e =>
    cases e with
    | taken irq => exact h.elim
    | closed | delivered | fetched | halted | abandoned | executed => rfl
  | acted | asked | paused => rfl

theorem Quiet.delivered?_eq {e : Happening} (h : e.Quiet) : e.delivered? = none := by
  cases e with
  | told e =>
    cases e with
    | delivered irq ret => exact h.elim
    | closed | taken | fetched | halted | abandoned | executed => rfl
  | acted | asked | paused => rfl

theorem quiet_of_mem_answers {e : Happening} {l : Line} {acts : List Line.Action}
    (h : e ∈ l.answers acts) : e.Quiet := by
  obtain ⟨a, -, reply, rfl⟩ := Line.acted_of_mem_answers h
  trivial

theorem taken_of_quiet {es : List Happening} (h : ∀ e ∈ es, e.Quiet) : es.filterMap taken? = [] :=
  List.filterMap_eq_nil_iff.mpr fun e he => (h e he).taken?_eq

theorem delivered_of_quiet {es : List Happening} (h : ∀ e ∈ es, e.Quiet) :
    es.filterMap delivered? = [] :=
  List.filterMap_eq_nil_iff.mpr fun e he => (h e he).delivered?_eq

end Happening

namespace Line

/-- An accepted interrupt joins the pending ones at the end, a taken one leaves
them at the front. -/
theorem pending_follow {l : Line} {e : Happening} (h : l.Bears e) :
    l.pending.toList ++ e.accepted?.toList = e.taken?.toList ++ (l.follow e).pending.toList := by
  cases e with
  | asked | paused => exact List.append_nil _
  | told e =>
    cases e with
    | taken irq =>
      have hp : l.pending = some irq := h
      simp only [follow, take, Happening.accepted?, Happening.taken?, hp]
    | executed i =>
      simp only [follow, Happening.accepted?, Happening.taken?]
      cases i.switch? <;> exact List.append_nil _
    | closed | delivered | fetched | halted | abandoned => exact List.append_nil _
  | acted a reply =>
    cases a with
    | setEnabled | close => exact List.append_nil _
    | request irq =>
      have hr : reply = some l.accepting := h
      subst hr
      simp only [follow, perform, request]
      cases ha : l.accepting with
      | false => exact List.append_nil _
      | true =>
        -- what is accepted finds the line empty
        obtain ⟨-, -, hp⟩ := l.accepting_iff.mp ha
        simp only [hp]
        rfl

theorem missed_follow {l : Line} {e : Happening} (h : l.Bears e) :
    (l.follow e).missed = l.missed + if e.refused then 1 else 0 := by
  cases e with
  | asked | paused => rfl
  | told e =>
    cases e with
    | executed i =>
      simp only [follow]
      cases i.switch? <;> rfl
    | closed | taken | delivered | fetched | halted | abandoned => rfl
  | acted a reply =>
    cases a with
    | setEnabled | close => rfl
    | request irq =>
      have hr : reply = some l.accepting := h
      subst hr
      simp only [follow, perform, request]
      cases l.accepting <;> rfl

/-- What was accepted is what was taken, in the same order, and what is still pending. -/
theorem pending_followAll {l : Line} {es : List Happening} (h : l.BearsAll es) :
    l.pending.toList ++ es.filterMap Happening.accepted? =
      es.filterMap Happening.taken? ++ (l.followAll es).pending.toList := by
  have split (f : Happening → Option Interrupt) (e : Happening) (es : List Happening) :
      (e :: es).filterMap f = (f e).toList ++ es.filterMap f := by
    rw [List.filterMap_cons]
    cases f e <;> rfl
  induction es generalizing l with
  | nil => exact List.append_nil _
  | cons e es ih =>
    calc l.pending.toList ++ (e :: es).filterMap Happening.accepted?
        = (l.pending.toList ++ e.accepted?.toList) ++ es.filterMap Happening.accepted? := by
          rw [split, List.append_assoc]
      _ = e.taken?.toList ++
            ((l.follow e).pending.toList ++ es.filterMap Happening.accepted?) := by
          rw [pending_follow h.1, List.append_assoc]
      _ = (e :: es).filterMap Happening.taken? ++ (l.followAll (e :: es)).pending.toList := by
          rw [ih h.2, ← List.append_assoc, ← split]
          rfl

theorem missed_followAll {l : Line} {es : List Happening} (h : l.BearsAll es) :
    (l.followAll es).missed = l.missed + es.countP Happening.refused := by
  induction es generalizing l with
  | nil => rfl
  | cons e es ih =>
    have hs := ih h.2
    rw [missed_follow h.1, Nat.add_assoc] at hs
    rw [List.countP_cons, Nat.add_comm (es.countP _)]
    exact hs

end Line

structure Account (m m' : Machine) (es : List Happening) : Prop where
  bears : m.line.BearsAll es
  line : m'.line = m.line.followAll es
  interrupts : m'.interrupts = m.interrupts + (es.filterMap Happening.delivered?).length

namespace Account
variable {m m' k : Machine}

theorem nil (hl : m'.line = m.line) (hi : m'.interrupts = m.interrupts) : Account m m' [] :=
  ⟨trivial, hl, hi⟩

theorem single {e : Happening} (hb : m.line.Bears e) (hl : m'.line = m.line.follow e)
    (hi : m'.interrupts = m.interrupts + ([e].filterMap Happening.delivered?).length) :
    Account m m' [e] := ⟨⟨hb, trivial⟩, hl, hi⟩

theorem append {es fs : List Happening} (h : Account m k es) (h' : Account k m' fs) :
    Account m m' (es ++ fs) where
  bears := (Line.bearsAll_append _ _ _).mpr ⟨h.bears, h.line ▸ h'.bears⟩
  line := by rw [h'.line, h.line, Line.followAll_append]
  interrupts := by
    rw [h'.interrupts, h.interrupts, List.filterMap_append, List.length_append, Nat.add_assoc]

theorem answers (m : Machine) (acts : List Line.Action) :
    Account m (m.perform acts) (m.line.answers acts) where
  bears := m.line.bearsAll_answers acts
  line := (m.line.followAll_answers acts).symm
  interrupts := by
    rw [Happening.delivered_of_quiet fun e he => Happening.quiet_of_mem_answers he]
    rfl

end Account

section
variable {σ : Type}

namespace Machine
variable {h : Host σ} {m k : Machine} {s : σ} {es : List Happening} {l l' : Line}
  {p q : σ × List Happening} {irq : Interrupt}

/-- For what is done to the line, two accesses that follow each other are one. -/
theorem approaches_chronicled (hl : h.chronicled.approach .closed m.line (s, es) = (l, p))
    (hk : h.chronicled.approach .take l p = (l', q)) :
    ∃ acts t, l' = m.line.performAll acts ∧ q = (t, es ++ m.line.answers acts) := by
  obtain ⟨acts, t, -, ha⟩ := approach_chronicled h .closed m.line s es
  rw [ha] at hl
  cases hl
  obtain ⟨acts', t', -, ha'⟩ :=
    approach_chronicled h .take (m.line.performAll acts) t (es ++ m.line.answers acts)
  rw [ha'] at hk
  cases hk
  refine ⟨acts ++ acts', t', (Line.performAll_append _ _ _).symm, ?_⟩
  rw [Line.answers_append, List.append_assoc]

theorem takes_chronicled (ht : Takes h.chronicled m (s, es) irq k q) :
    ∃ acts t, (m.line.performAll acts).pending = some irq ∧
      k = { m with line := (m.line.performAll acts).take.2 } ∧
      q = (t, es ++ m.line.answers acts ++ [.told (.taken irq)]) := by
  cases ht with
  | intro hl hc hk hp =>
    obtain ⟨acts, t, rfl, rfl⟩ := approaches_chronicled hl hk
    exact ⟨acts, _, hp, rfl, observe_chronicled _ _ _ _⟩

end Machine

def Quietly (p q : Machine × σ × List Happening) : Prop :=
  ∃ es, q.2.2 = p.2.2 ++ es ∧ (∀ e ∈ es, e.Quiet) ∧ Account p.1 q.1 es

instance : IsPreorder (Machine × σ × List Happening) Quietly where
  refl p := ⟨[], (List.append_nil _).symm, fun _ h => absurd h List.not_mem_nil, .nil rfl rfl⟩
  trans := by
    rintro p q r ⟨es, he, hq, ha⟩ ⟨fs, hf, hq', ha'⟩
    refine ⟨es ++ fs, by rw [hf, he, List.append_assoc], fun e h => ?_, ha.append ha'⟩
    exact (List.mem_append.mp h).elim (hq e) (hq' e)

theorem quietly_of_same {p q : Machine × σ × List Happening} (ht : q.2 = p.2)
    (hl : q.1.line = p.1.line) (hi : q.1.interrupts = p.1.interrupts) : Quietly p q :=
  ⟨[], by rw [ht, List.append_nil], fun _ h => absurd h List.not_mem_nil, .nil hl hi⟩

namespace Machine
variable (h : Host σ)

theorem quietly_tell {e : Event} (hq : (Happening.told e).Quiet)
    (hf : ∀ l : Line, l.follow (.told e) = l) : Keeps Quietly (tell h.chronicled e) := by
  intro (m, s, es)
  have told : ∀ f ∈ [Happening.told e], f.Quiet := fun f hf => List.mem_singleton.mp hf ▸ hq
  have hb : m.line.Bears (.told e) := by
    cases e with
    | taken | closed => exact hq.elim
    | delivered | fetched | halted | abandoned | executed => trivial
  refine ⟨_, rfl, told, .single hb (hf m.line).symm ?_⟩
  rw [Happening.delivered_of_quiet told]
  rfl

/-- Apart from its poll a step changes the line only where its chronicle says so. -/
theorem allows_quietly : Allows h.chronicled Quietly where
  consult := by
    intro (m, s, es)
    rw [leftBehind_consult]
    refine ⟨_, List.append_assoc _ _ _, fun e he => ?_,
      (Account.answers m _).append (.single trivial rfl rfl)⟩
    rcases List.mem_append.mp he with he | he
    · exact Happening.quiet_of_mem_answers he
    · cases List.mem_singleton.mp he
      trivial
  tell e he := by
    cases e with
    | fetched | halted | abandoned => exact quietly_tell h trivial fun _ => rfl
    | closed | taken | delivered | executed => exact he.elim
  instruction next i := by
    intro (m, s)
    rw [leftBehind_attempt]
    exact quietly_of_same rfl rfl rfl
  pc m s a := quietly_of_same rfl rfl rfl
  halted m s b := quietly_of_same rfl rfl rfl
  look a f := by
    intro (m, s, es)
    exact ⟨_, rfl, fun e he => Happening.quiet_of_mem_answers he,
      .answers m (h.meanwhile a m.line s).1⟩
  complete i hi := by
    refine Keeps.bind (keeps_update fun m s => quietly_of_same rfl rfl rfl) fun _ =>
      quietly_tell h trivial fun l => ?_
    simp only [Line.follow, hi]
  switch i on hi := by
    intro (m, s, es)
    have follow (l : Line) : l.follow (.told (.executed i)) = l.setEnabled on := by
      simp only [Line.follow, hi]
    have first := Account.answers m (h.meanwhile .setEnabled m.line s).1
    refine ⟨_, List.append_assoc _ _ _, fun e he => ?_, first.append (.single trivial (follow _).symm rfl)⟩
    rcases List.mem_append.mp he with he | he
    · exact Happening.quiet_of_mem_answers he
    · cases List.mem_singleton.mp he
      trivial

end Machine
end
end TwelveBit
