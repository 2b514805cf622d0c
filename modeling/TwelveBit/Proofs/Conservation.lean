import TwelveBit.Proofs.Attestation
import TwelveBit.Proofs.LineHistory
import TwelveBit.Proofs.Operation
import Mathlib.Logic.ExistsUnique
/-!
What becomes of interrupts. A step takes one at most and delivers it, stops or traps; no accepted
interrupt is lost, taken twice, taken out of order or replaced by another.
-/
namespace TwelveBit

section
variable {σ : Type}

namespace Machine
variable (h : Host σ)

/-- The ways a step can go, with what it writes down. Only the hosts act before it takes an
interrupt. -/
inductive Course (m : Machine) (s : σ) : Option Stop × Machine × σ × List Happening → Prop
  | closed {acts : List Line.Action} {t : σ}
      (found : (h.approach .closed m.line s).1.closed = true)
      (hc : (m.line.performAll acts).closed = true) :
      Course m s (some (.exit .stopped), m.perform acts, t, m.line.answers acts ++ [.told .closed])
  | idle {acts : List Line.Action} {t : σ} {r : Option Stop × Machine × σ × List Happening}
      (hp : (m.line.performAll acts).pending = none)
      (rest : Quietly (m.perform acts, t, m.line.answers acts) r.2) : Course m s r
  | stopped {acts : List Line.Action} {t : σ} {irq : Interrupt} {k : Machine}
      (hp : (m.line.performAll acts).pending = some irq)
      (source : irq.source = .stop)
      (hl : k.line = (m.line.performAll acts).take.2)
      (hi : k.interrupts = m.interrupts) :
      Course m s (some (.exit .stopped), k, t, m.line.answers acts ++ [.told (.taken irq)])
  | trapped {acts : List Line.Action} {t : σ} {irq : Interrupt} {k : Machine} {f : Fault} {c : Cpu}
      (hp : (m.line.performAll acts).pending = some irq)
      (source : irq.source ≠ .stop)
      (fault : (Frame.interrupt irq m.pc).run m.toCpu = .error f c)
      (hl : k.line = (m.line.performAll acts).take.2)
      (hi : k.interrupts = m.interrupts) :
      Course m s (some (.trap ⟨m.pc, f⟩), k, t, m.line.answers acts ++ [.told (.taken irq)])
  | delivered {acts : List Line.Action} {t : σ} {irq : Interrupt} {k : Machine} {c : Cpu}
      {r : Option Stop × Machine × σ × List Happening}
      (hp : (m.line.performAll acts).pending = some irq)
      (source : irq.source ≠ .stop)
      (entered : (Frame.interrupt irq m.pc).run m.toCpu = .ok () c)
      (hl : k.line = (m.line.performAll acts).take.2)
      (hi : k.interrupts = m.interrupts + 1)
      (rest : Quietly (k, t, m.line.answers acts ++
        [.told (.taken irq), .told (.delivered irq m.pc)]) r.2) : Course m s r

/-- A step whose poll went well goes on quietly. -/
theorem quietly_of_poll {m k : Machine} {s : σ} {es : List Happening} {p : σ × List Happening}
    (hx : (poll h.chronicled).run (m, s, es) = .ok () (k, p)) :
    Quietly (k, p) (m.step h.chronicled (s, es)).2 := by
  rw [step_eq, settle_of_ok hx, settle_snd]
  exact (allows_quietly h).rest (k, p)

theorem step_course (m : Machine) (s : σ) :
    Course h m s (m.step h.chronicled (s, [])) := by
  have hp := polled h.chronicled m (s, [])
  cases hr : (poll h.chronicled).run (m, s, []) with
  | error e q =>
    rw [hr] at hp
    rw [step_eq, settle_of_error hr]
    cases hp with
    | closed hl hc =>
      obtain ⟨acts, t, found, ha⟩ := approach_chronicled h .closed m.line s []
      rw [ha] at hl
      cases hl
      exact .closed (by rw [found]; exact hc) hc
    | stopped taken source =>
      obtain ⟨acts, t, hpending, rfl, rfl⟩ := takes_chronicled taken
      exact .stopped hpending source rfl rfl
    | trapped taken source fault =>
      obtain ⟨acts, t, hpending, rfl, rfl⟩ := takes_chronicled taken
      exact .trapped hpending source fault rfl rfl
  | ok x q =>
    have rest := quietly_of_poll h hr
    rw [hr] at hp
    cases hp with
    | idle hl hc hk hpending =>
      obtain ⟨acts, t, rfl, rfl⟩ := approaches_chronicled hl hk
      exact .idle hpending rest
    | delivered taken source entered hn =>
      obtain ⟨acts, t, hpending, rfl, rfl⟩ := takes_chronicled taken
      simp only [hn, observe_chronicled, List.nil_append, List.append_assoc, List.cons_append] at rest
      exact .delivered hpending source entered rfl rfl rest

end Machine
end

inductive Fate where
  | delivered | stopped | trapped
  deriving DecidableEq, Repr

def Fate.Befalls (irq : Interrupt) (m : Machine) (stop : Option Stop) (m' : Machine) : Fate → Prop
  | delivered => m'.interrupts = m.interrupts + 1
  | stopped => irq.source = .stop ∧ stop = some (.exit .stopped)
  | trapped => ∃ f c,
    (Frame.interrupt irq m.pc).run m.toCpu = .error f c ∧ stop = some (.trap ⟨m.pc, f⟩)

namespace Machine.Course
variable {σ : Type} {h : Host σ} {m : Machine} {s : σ}
  {r : Option Stop × Machine × σ × List Happening}

theorem taken_answers (l : Line) (acts : List Line.Action) :
    (l.answers acts).filterMap Happening.taken? = [] :=
  Happening.taken_of_quiet fun _ he => Happening.quiet_of_mem_answers he

/-- A step takes one interrupt at most, and one thing becomes of that. -/
theorem fate (hr : Course h m s r) :
    r.2.2.2.filterMap Happening.taken? = [] ∨
      ∃ irq, r.2.2.2.filterMap Happening.taken? = [irq] ∧
        ∃! fate : Fate, fate.Befalls irq m r.1 r.2.1 := by
  have one (acts : List Line.Action) (irq : Interrupt) :
      (m.line.answers acts ++ [Happening.told (.taken irq)]).filterMap Happening.taken? = [irq] := by
    rw [List.filterMap_append, taken_answers]
    rfl
  cases hr with
  | closed found hc =>
    left
    rw [List.filterMap_append, taken_answers]
    rfl
  | @idle acts t r hp rest =>
    obtain ⟨es, he, hq, -⟩ := rest
    left
    rw [he, List.filterMap_append, taken_answers, Happening.taken_of_quiet hq]
    rfl
  | @stopped acts t irq k hp source hl hi =>
    refine Or.inr ⟨irq, one acts irq, .stopped, ⟨source, rfl⟩, fun fate hf => ?_⟩
    cases fate with
    | stopped => rfl
    | delivered =>
      -- a delivery would have been counted
      have hk : k.interrupts = m.interrupts + 1 := hf
      omega
    | trapped =>
      obtain ⟨f, c, -, hs⟩ := hf
      cases hs
  | @trapped acts t irq k f c hp source fault hl hi =>
    refine Or.inr ⟨irq, one acts irq, .trapped, ⟨f, c, fault, rfl⟩, fun fate hf => ?_⟩
    cases fate with
    | trapped => rfl
    | stopped => exact absurd hf.1 source
    | delivered =>
      have hk : k.interrupts = m.interrupts + 1 := hf
      omega
  | @delivered acts t irq k c r hp source entered hl hi rest =>
    obtain ⟨es, he, hq, ha⟩ := rest
    refine Or.inr ⟨irq, ?_, .delivered, ?_, fun fate hf => ?_⟩
    · rw [he, List.filterMap_append, List.filterMap_append, taken_answers,
        Happening.taken_of_quiet hq]
      rfl
    · have hk : r.2.1.interrupts = k.interrupts + 0 := by
        rw [ha.interrupts, Happening.delivered_of_quiet hq]
        rfl
      exact hk.trans hi
    · cases fate with
      | delivered => rfl
      | stopped => exact absurd hf.1 source
      | trapped =>
        obtain ⟨f, c', hx, -⟩ := hf
        rw [entered] at hx
        cases hx

/-- A step that finds the line open takes what was pending when it began. Until then nothing
happens but what hosts do to the line, and whatever they do makes no difference. What comes next is
the end of the step or the delivery, if that does not fail. -/
theorem takes {irq : Interrupt} (hr : Course h m s r) (hp : m.line.pending = some irq)
    (found : (h.approach .closed m.line s).1.closed = false) :
    ∃ acts post, r.2.2.2 = m.line.answers acts ++ .told (.taken irq) :: post ∧
      (irq.source = .stop → r.1 = some (.exit .stopped) ∧ post = []) ∧
      ∀ c, irq.source ≠ .stop → (Frame.interrupt irq m.pc).run m.toCpu = .ok () c →
        ∃ rest, post = .told (.delivered irq m.pc) :: rest := by
  have still (acts : List Line.Action) {other : Option Interrupt}
      (ho : (m.line.performAll acts).pending = other) : some irq = other :=
    (Line.pending_performAll hp acts).symm.trans ho
  cases hr with
  | closed found' hc => exact absurd found' (by rw [found]; decide)
  | idle hp' rest => cases still _ hp'
  | @stopped acts t irq k hp' source hl hi =>
    cases still acts hp'
    exact ⟨acts, [], rfl, fun _ => ⟨rfl, rfl⟩, fun c hne => absurd source hne⟩
  | @trapped acts t irq k f c hp' source fault hl hi =>
    cases still acts hp'
    refine ⟨acts, [], rfl, fun hs => absurd hs source, fun c' _ entered => ?_⟩
    rw [fault] at entered
    cases entered
  | @delivered acts t irq k c r hp' source entered hl hi rest =>
    cases still acts hp'
    obtain ⟨es, he, -, -⟩ := rest
    refine ⟨acts, .told (.delivered irq m.pc) :: es, ?_, fun hs => absurd hs source,
      fun _ _ _ => ⟨es, rfl⟩⟩
    rw [he, List.append_assoc, List.cons_append, List.cons_append, List.nil_append]

end Machine.Course

structure Ledger where
  machine : Machine
  start : Line
  happenings : List Happening

def Ledger.begin (m : Machine) : Ledger := ⟨m, m.line, []⟩

namespace Operation

def history : Operation → Machine → List Happening
  | act a, m => m.line.answers [a]
  | step h s, m => m.stepHistory h s
  | wake h s, m => m.wakeHistory h s
  | _, _ => []

def record : Operation → Ledger → Ledger
  | reset entry, r => .begin (r.machine.reset entry)
  | op, r => ⟨op.apply r.machine, r.start, r.happenings ++ op.history r.machine⟩

def recordAll : List Operation → Ledger → Ledger
  | [], r => r
  | op :: ops, r => recordAll ops (op.record r)

theorem record_machine (op : Operation) (r : Ledger) :
    (op.record r).machine = op.apply r.machine := by
  cases op <;> rfl

theorem recordAll_machine (ops : List Operation) (r : Ledger) :
    (recordAll ops r).machine = applyAll ops r.machine := by
  induction ops generalizing r with
  | nil => rfl
  | cons op ops ih =>
    simp only [recordAll, applyAll, ih, record_machine]

end Operation

namespace Machine

theorem account_onMemory {ε α : Type} (x : EStateM ε Memory α) (m : Machine) :
    Account m (m.onMemory x).2 [] := by
  rw [onMemory_snd]
  exact .nil rfl rfl

theorem account_load (bytes : List UInt8) (m : Machine) : Account m (m.load bytes).2 [] := by
  obtain ⟨memory, hm⟩ := load_snd bytes m
  rw [hm]
  exact .nil rfl rfl

variable {σ : Type} (h : Host σ)

/-- A chronicle accounts for everything that happens to the line. -/
theorem attests_account : Attests h fun p es q => Account p.1 q.1 es where
  nil p := .nil rfl rfl
  append := Account.append
  unseen m s c pc b := .nil rfl rfl
  meanwhile a m s := .answers m _
  asked m s := (Account.answers m _).append (.single trivial rfl rfl)
  closed m s hc := .single hc rfl rfl
  taken m s irq hp := .single hp rfl rfl
  delivered m s irq c pc hp := by
    have taken : Account m { m with line := m.line.take.2 } [.told (.taken irq)] :=
      .single hp rfl rfl
    exact taken.append (.single trivial rfl rfl)
  inner m s e he := by
    cases e with
    | fetched | halted | abandoned => exact .single trivial rfl rfl
    | closed | taken | delivered | executed => exact he.elim
  executed m s i hi := .single trivial (by simp only [counted, Line.follow, hi]) rfl
  switched m s i on hi := .single trivial (by simp only [counted, Line.follow, hi]) rfl

theorem account_step (m : Machine) (s : σ) :
    Account m (m.step h s).2.1 (m.stepHistory h s) := (attests_account h).step m s

theorem account_wake (m : Machine) (s : σ) :
    Account m (m.wake h s).2.1 (m.wakeHistory h s) := (attests_account h).wake m s

end Machine

namespace Ledger

def Kept (r : Ledger) : Prop :=
  ∃ (m : Machine) (entry : Nat),
    r.start = (m.reset entry).line ∧ Account (m.reset entry) r.machine r.happenings

theorem kept_begin (m : Machine) (entry : Nat) : (begin (m.reset entry)).Kept :=
  ⟨m, entry, rfl, .nil rfl rfl⟩

theorem Kept.record {r : Ledger} (h : r.Kept) (op : Operation) : (op.record r).Kept := by
  obtain ⟨m, entry, hs, ha⟩ := h
  -- all but a reset go on with the account
  have go {k : Machine} {es : List Happening} (hk : Account r.machine k es) :
      Kept ⟨k, r.start, r.happenings ++ es⟩ := ⟨m, entry, hs, ha.append hk⟩
  cases op with
  | reset entry => exact kept_begin r.machine entry
  | load bytes => exact go (Machine.account_load bytes r.machine)
  | loadRom | write | writeLong | copy => exact go (Machine.account_onMemory _ r.machine)
  | clearWritable => exact go (.nil rfl rfl)
  | act a => exact go (.answers r.machine [a])
  | step hosts s => exact go (Machine.account_step hosts r.machine s)
  | wake hosts s => exact go (Machine.account_wake hosts r.machine s)

theorem Kept.recordAll {r : Ledger} (h : r.Kept) (ops : List Operation) :
    (Operation.recordAll ops r).Kept := by
  induction ops generalizing r with
  | nil => exact h
  | cons op ops ih => exact ih (h.record op)

structure Balanced (r : Ledger) : Prop where
  start : r.start = { closed := r.start.closed }
  line : r.machine.line = r.start.followAll r.happenings
  conserved : r.happenings.filterMap Happening.accepted? =
    r.happenings.filterMap Happening.taken? ++ r.machine.line.pending.toList
  answered : ∀ pre irq reply post,
    r.happenings = pre ++ .acted (.request irq) reply :: post →
      let l := r.start.followAll pre
      reply = some (decide (l.closed = false ∧ l.enabled = true ∧ l.pending = none))
  missed : r.machine.line.missed = r.happenings.countP Happening.refused
  counted : r.machine.interrupts = (r.happenings.filterMap Happening.delivered?).length

theorem Kept.balanced {r : Ledger} (h : r.Kept) : r.Balanced := by
  obtain ⟨m, entry, hs, ha⟩ := h
  have bears : r.start.BearsAll r.happenings := hs ▸ ha.bears
  have line : r.machine.line = r.start.followAll r.happenings := hs ▸ ha.line
  have empty : r.start.pending = none := hs ▸ rfl
  have zero : r.start.missed = 0 := hs ▸ rfl
  constructor
  case start => exact hs ▸ rfl
  case line => exact line
  case conserved =>
    rw [line, ← Line.pending_followAll bears, empty]
    rfl
  case answered =>
    intro pre irq reply post he l
    rw [he, Line.bearsAll_append] at bears
    have hr : reply = some l.accepting := bears.2.1
    rw [hr, Option.some_inj, Bool.eq_iff_iff, Line.accepting_iff, decide_eq_true_iff]
  case missed =>
    rw [line, Line.missed_followAll bears, zero, Nat.zero_add]
  case counted => exact ha.interrupts.trans (Nat.zero_add _)

end Ledger

/-- Whatever hosts do to the line between the accesses of steps: the interrupts accepted since
the last reset are the ones that steps have taken, in the same order, and the one still pending.
A step takes at most one, which is delivered, or stops the machine, or traps; and a step that finds
the line open takes the pending one first of all. -/
theorem interrupts_are_conserved :
    (∀ (m : Machine) (entry : Nat) (ops : List Operation),
      let r := Operation.recordAll ops (.begin (m.reset entry))
      r.machine = Operation.applyAll ops (m.reset entry) ∧ r.Balanced) ∧
    ∀ {σ : Type} (h : Host σ) (m : Machine) (s : σ),
      let taken := (m.stepHistory h s).filterMap Happening.taken?
      (taken = [] ∨ ∃ irq, taken = [irq] ∧
        ∃! fate : Fate, fate.Befalls irq m (m.step h s).1 (m.step h s).2.1) ∧
      ∀ irq, m.line.pending = some irq → (h.approach .closed m.line s).1.closed = false →
        ∃ acts post, m.stepHistory h s = m.line.answers acts ++ .told (.taken irq) :: post := by
  refine ⟨fun m entry ops => ⟨?_, ?_⟩, fun h m s => ⟨?_, fun irq hp found => ?_⟩⟩
  · exact Operation.recordAll_machine ops _
  · exact ((Ledger.kept_begin m entry).recordAll ops).balanced
  · rw [Machine.step_chronicled h m s []]
    exact (Machine.step_course h m s).fate
  · obtain ⟨acts, post, hes, -⟩ := (Machine.step_course h m s).takes hp found
    exact ⟨acts, post, hes⟩

/-- Requests are disabled again before the step gets to the line, and other ones come in. -/
theorem pending_timer_is_taken_first :
    let m := (Machine.new ⟨16, 0, 0, 16, by decide⟩).perform [.setEnabled true, .request .timer]
    let h : Host Unit :=
      { meanwhile := fun _ _ s => ([.setEnabled false, .request .vblank], s) }
    m.line.pending = some .timer ∧ (h.approach .closed m.line ()).1.closed = false ∧
      ∃ acts post, m.stepHistory h () = m.line.answers acts ++ .told (.taken .timer) :: post := by
  intro m h
  have hp : m.line.pending = some .timer := by decide
  have found : (h.approach .closed m.line ()).1.closed = false := by decide
  obtain ⟨-, takes⟩ := interrupts_are_conserved.2 h m ()
  exact ⟨hp, found, takes .timer hp found⟩

end TwelveBit
