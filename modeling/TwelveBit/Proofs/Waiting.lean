import TwelveBit.Proofs.Conservation
import TwelveBit.Proofs.Finishing
import TwelveBit.Proofs.Frames
/-!
Waiting. A step that comes to `hlt` with requests enabled may be left waiting, and goes on with
whoever is around later. Meanwhile nothing runs. What wakes the machine is still pending when the
step returns, and it is what the next step takes before it does anything else.
-/
namespace TwelveBit
open TwelveBit.Frame

variable {σ τ : Type}

namespace Machine

/-- How far a step has got, with what has happened in it. Each time it is left waiting it may go on
with other hosts. -/
inductive Underway (h : Host σ) (m : Machine) (s : σ) :
    List Happening → Option Stop → Machine → Prop
  | begun : Underway h m s (m.stepHistory h s) (m.step h s).1 (m.step h s).2.1
  | woken {τ : Type} {es : List Happening} {k : Machine} (g : Host τ) (t : τ)
      (waits : Underway h m s es (some .blocked) k) :
      Underway h m s (es ++ k.wakeHistory g t) (k.wake g t).1 (k.wake g t).2.1

structure Rested (k : Machine) (stop : Option Stop) (m : Machine) : Prop where
  cpu_eq : m.toCpu = k.toCpu
  pc_eq : m.pc = k.pc
  outcome : stop = some .blocked ∨
    stop = some (.exit .stopped) ∧ m.line.closed = true ∧ m.line.pending = none ∨
    stop = none ∧ m.halted = false ∧ ∃ irq, m.line.pending = some irq

variable {h : Host σ} {m m' k : Machine} {s u : σ} {r : Option Stop × Machine × σ}
  {stop : Option Stop} {es : List Happening} {irq : Interrupt}

theorem Rested.trans {n : Machine} {stop' : Option Stop} (hk : Rested k stop' n)
    (hn : Rested n stop m) : Rested k stop m :=
  ⟨hn.cpu_eq.trans hk.cpu_eq, hn.pc_eq.trans hk.pc_eq, hn.outcome⟩

theorem Waited.rested (hw : Waited h m s r) : Rested m r.1 r.2.1 := by
  cases hw with
  | blocked hl hp hc => exact ⟨rfl, rfl, Or.inl rfl⟩
  | woken hl hp hk =>
    subst hk
    exact ⟨rfl, rfl, Or.inr (Or.inr ⟨rfl, rfl, _, hp⟩)⟩
  | abandoned hl hp hc hk =>
    subst hk
    exact ⟨rfl, rfl, Or.inr (Or.inl ⟨rfl, hc, hp⟩)⟩

/-- However often the machine is woken, it stays where it began to wait. -/
theorem Underway.rested (first : Rested k (m.step h s).1 (m.step h s).2.1)
    (hu : Underway h m s es stop m') : Rested k stop m' := by
  induction hu with
  | begun => exact first
  | woken g t waits ih => exact ih.trans (waited g _ t).rested

/-- A `hlt` that finds requests enabled waits behind itself. -/
theorem rested_of_halt (ready : Ready h m s k u)
    (fetched : Instruction.fetched k.fetch = .ok (.system .halt))
    (on : (h.approach .enabled k.line (h.observe k (.fetched (.system .halt)) u)).1.enabled = true) :
    Rested { k with pc := toLong (k.pc + 1) } (m.step h s).1 (m.step h s).2.1 := by
  rcases hl : h.approach .enabled k.line (h.observe k (.fetched (.system .halt)) u) with ⟨l, t⟩
  rw [hl] at on
  -- the program counter has moved on before the wait begins
  let n : Machine := { k with pc := toLong (k.pc + 1) }
  have hwaits : settle (finishing h (.system .halt)) n (h.observe k (.fetched (.system .halt)) u) =
      ({ n with halted := true, line := l } : Machine).wake h t := by
    rw [settle_finishing_halt (m := n) hl]
    exact if_pos on
  rw [step_of_system ready fetched, hwaits]
  have hw := (waited h { n with halted := true, line := l } t).rested
  exact ⟨hw.cpu_eq, hw.pc_eq, hw.outcome⟩

theorem step_of_closed {l : Line} {t : σ} (hl : h.approach .closed m.line s = (l, t))
    (hc : l.closed = true) :
    m.step h s =
      (some (.exit .stopped), { m with line := l }, h.observe { m with line := l } .closed t) := by
  rw [step_eq]
  exact settle_of_error (run_poll_of_closed hl hc)

/-- A step that finds the line closed does nothing, and hosts act on the line only before it
does. -/
theorem stepHistory_of_closed (hc : (h.approach .closed m.line s).1.closed = true) :
    ∃ acts, (m.step h s).1 = some (.exit .stopped) ∧ (m.step h s).2.1 = m.perform acts ∧
      m.stepHistory h s = m.line.answers acts ++ [.told .closed] := by
  obtain ⟨acts, t, hl, ha⟩ := approach_chronicled h .closed m.line s []
  rw [hl] at hc
  refine ⟨acts, ?_, ?_, ?_⟩
  · rw [step_of_closed hl hc]
  · rw [step_of_closed hl hc]
    rfl
  · rw [stepHistory, step_of_closed ha hc]
    rfl

end Machine

def Frame.returnAddress (c : Cpu) : Nat :=
  join (c.memory.word (toLong c.fp)) (c.memory.word (toLong (c.fp + 1)))

theorem Frame.returnAddress_of_interrupt {irq : Interrupt} {ret : Nat} {c c' : Cpu}
    (h : (interrupt irq ret).run c = .ok () c') : returnAddress c' = toLong ret := by
  obtain ⟨_, d, -, entered⟩ := ok_of_bind h
  have header := (entered_of_enter entered).header
  rw [returnAddress, header.retHigh, header.retLow, join_split]

namespace Machine
variable {h : Host σ} {m m' k : Machine} {s u : σ} {stop : Option Stop} {es : List Happening}
  {irq : Interrupt} {ret : Nat}

structure TurnsTo (h : Host σ) (m : Machine) (s : σ) (irq : Interrupt) (ret : Nat) : Prop where
  closed : (h.approach .closed m.line s).1.closed = true →
    (m.step h s).1 = some (.exit .stopped) ∧
      ∃ acts, m.stepHistory h s = m.line.answers acts ++ [.told .closed]
  taken : (h.approach .closed m.line s).1.closed = false →
    ∃ acts post, m.stepHistory h s = m.line.answers acts ++ .told (.taken irq) :: post ∧
      (irq.source = .stop → (m.step h s).1 = some (.exit .stopped) ∧ post = []) ∧
      ∀ c, irq.source ≠ .stop → (Frame.interrupt irq m.pc).run m.toCpu = .ok () c →
        returnAddress c = ret ∧ ∃ rest, post = .told (.delivered irq ret) :: rest

theorem turnsTo_of_pending (h : Host σ) (s : σ) (hp : m.line.pending = some irq)
    (hpc : m.pc < 0x1000000) : TurnsTo h m s irq m.pc where
  closed found := by
    obtain ⟨acts, hstop, -, hes⟩ := stepHistory_of_closed found
    exact ⟨hstop, acts, hes⟩
  taken found := by
    obtain ⟨acts, post, hes, stops, delivers⟩ := (step_course h m s).takes hp found
    refine ⟨acts, post, hes, fun hs => ?_, fun c hne entered => ⟨?_, delivers c hne entered⟩⟩
    · rw [step_chronicled h m s []]
      exact stops hs
    · rw [Frame.returnAddress_of_interrupt entered, toLong_of_lt hpc]

end Machine

/-- A `hlt` that finds requests enabled runs nothing until it is woken, whatever hosts do in the
meantime and however often the step is left waiting. If the step returns because the line is
closed, nothing is pending. Otherwise an interrupt is, and it is what the next step takes before
anything else, whatever is done to the line before that; its handler returns behind the `hlt`. -/
theorem halt_waits_for_what_is_taken_next {h : Host σ} {m m' k : Machine} {s u : σ}
    {es : List Happening} {stop : Option Stop} (ready : Machine.Ready h m s k u)
    (fetched : Instruction.fetched k.fetch = .ok (.system .halt))
    (on : (h.approach .enabled k.line (h.observe k (.fetched (.system .halt)) u)).1.enabled = true)
    (underway : Machine.Underway h m s es stop m') (returns : stop ≠ some .blocked) :
    m'.toCpu = k.toCpu ∧ m'.pc = toLong (k.pc + 1) ∧
      (stop = some (.exit .stopped) ∧ m'.line.closed = true ∧ m'.line.pending = none ∨
        stop = none ∧ m'.halted = false ∧ ∃ irq, m'.line.pending = some irq ∧
          ∀ (acts : List Line.Action) {τ : Type} (g : Host τ) (t : τ),
            Machine.TurnsTo g (m'.perform acts) t irq (toLong (k.pc + 1))) := by
  obtain ⟨hcpu, hpc, outcome⟩ := underway.rested (Machine.rested_of_halt ready fetched on)
  refine ⟨hcpu, hpc, ?_⟩
  obtain blocked | stopped | ⟨hnone, hhalted, irq, hp⟩ := outcome
  · exact absurd blocked returns
  · exact Or.inl stopped
  · refine Or.inr ⟨hnone, hhalted, irq, hp, fun acts τ g t => ?_⟩
    have hpc' : (m'.perform acts).pc = toLong (k.pc + 1) := hpc
    rw [← hpc']
    refine Machine.turnsTo_of_pending g t (Line.pending_performAll hp acts) ?_
    rw [hpc']
    exact toLong_lt _

/-- Nobody is there when the machine begins to wait, and a key is pressed later. -/
theorem key_wakes_and_is_taken_next :
    let m := Operation.applyAll [.loadRom 0 [1], .reset 16, .act (.setEnabled true)]
      (.new ⟨16, 0, 0, 16, by decide⟩)
    let k := (m.step Host.idle ()).2.1
    let h : Host Unit := { meanwhile := fun _ _ s => ([.request (.key 65 true)], s) }
    (m.step Host.idle ()).1 = some .blocked ∧ (k.wake h ()).1 = none ∧
      Machine.TurnsTo Host.idle ((k.wake h ()).2.1.perform []) () (.key 65 true) 17 := by
  intro m k h
  have ready : Machine.Ready Host.idle m () m () :=
    Machine.ready_idle (by decide +kernel) (by decide +kernel)
  have hop : (Instruction.fetched m.fetch).toOption = some (.system .halt) := by decide +kernel
  have fetched : Instruction.fetched m.fetch = .ok (.system .halt) := by
    cases hf : Instruction.fetched m.fetch with
    | ok i =>
      rw [hf] at hop
      exact congrArg Except.ok (Option.some.inj hop)
    | error f =>
      rw [hf] at hop
      cases hop
  have blocked : (m.step Host.idle ()).1 = some .blocked := by decide +kernel
  have woken : (k.wake h ()).1 = none := by decide +kernel
  have pending : (k.wake h ()).2.1.line.pending = some (.key 65 true) := by decide +kernel
  have waits : Machine.Underway Host.idle m () (m.stepHistory Host.idle ()) (some .blocked) k := by
    rw [← blocked]
    exact .begun
  refine ⟨blocked, woken, ?_⟩
  obtain ⟨-, -, ⟨stopped, -⟩ | ⟨-, -, irq, hp, turns⟩⟩ :=
    halt_waits_for_what_is_taken_next ready fetched (by decide +kernel) (.woken h () waits)
      (by rw [woken]; decide)
  · rw [woken] at stopped
    cases stopped
  · rw [pending] at hp
    cases hp
    exact turns [] Host.idle ()

end TwelveBit
