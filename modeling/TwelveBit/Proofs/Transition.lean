import TwelveBit.Step
import TwelveBit.Proofs.Keeps
/-!
What a machine does when nothing goes wrong: it takes an interrupt, or it executes an instruction.
Hosts watch and learn, but neither what happens to the processor nor where the machine goes on
depends on them.
-/
namespace TwelveBit.Machine

variable {σ : Type} {host : Host σ} {irq : Interrupt} {i : Instruction} {m m' : Machine}
  {s s' : σ}

theorem ok_of_deliver {vector : Nat} (h : (deliver host irq vector).run (m, s) = .ok () (m', s')) :
    ∃ c, (Frame.interrupt irq m.pc).run m.toCpu = .ok () c ∧
      m' = { m with toCpu := c, pc := vector, interrupts := m.interrupts + 1 } := by
  rw [run_deliver] at h
  cases hr : (Frame.interrupt irq m.pc).run m.toCpu with
  | error f c => simp only [hr, reduceCtorEq] at h
  | ok u c =>
    simp only [hr] at h
    cases h
    exact ⟨c, rfl, rfl⟩

theorem ok_of_execute (hi : ∀ op, i ≠ .system op)
    (h : (execute host i).run (m, s) = .ok () (m', s')) :
    ∃ pc c, (i.run (toLong (m.pc + i.size))).run m.toCpu = .ok pc c ∧
      m' = { m with toCpu := c, pc := pc, instructions := m.instructions + 1 } := by
  rw [run_execute host hi] at h
  cases hr : (i.run (toLong (m.pc + i.size))).run m.toCpu with
  | error f c => simp only [hr, reduceCtorEq] at h
  | ok pc c =>
    simp only [hr] at h
    cases h
    exact ⟨pc, c, rfl, rfl⟩

def Delivers (irq : Interrupt) (m m' : Machine) : Prop :=
  ∃ (σ : Type) (host : Host σ) (s s' : σ) (vector : Nat),
    irq.source.vector? m.memory.layout = some vector ∧
      (deliver host irq vector).run (m, s) = .ok () (m', s')

def Executes (i : Instruction) (m m' : Machine) : Prop :=
  ∃ (σ : Type) (host : Host σ) (s s' : σ), (execute host i).run (m, s) = .ok () (m', s')

theorem Delivers.enters (h : Delivers irq m m') :
    (Frame.interrupt irq m.pc).run m.toCpu = .ok () m'.toCpu := by
  obtain ⟨σ, host, s, s', vector, -, hr⟩ := h
  obtain ⟨c, hc, rfl⟩ := ok_of_deliver hr
  exact hc

theorem Executes.runs (h : Executes i m m') (hi : ∀ op, i ≠ .system op) :
    (i.run (toLong (m.pc + i.size))).run m.toCpu = .ok m'.pc m'.toCpu := by
  obtain ⟨σ, host, s, s', hr⟩ := h
  obtain ⟨pc, c, hc, rfl⟩ := ok_of_execute hi hr
  exact hc

def after (i : Instruction) (m : Machine) : Machine :=
  (leftBehind ((execute Host.idle i).run (m, ()))).1

def accepts (i : Instruction) (m : Machine) : Bool :=
  match (execute Host.idle i).run (m, ()) with
  | .ok _ _ => true
  | .error _ _ => false

theorem executes_after (h : m.accepts i) : m.Executes i (m.after i) := by
  refine ⟨Unit, Host.idle, (), (), ?_⟩
  unfold accepts at h
  unfold after
  cases hr : (execute Host.idle i).run (m, ()) with
  | ok u p => rfl
  | error e p => simp only [hr, Bool.false_eq_true] at h

/-- The machine executes an instruction just when the processor can run it. -/
theorem executes_iff (hi : ∀ op, i ≠ .system op) :
    (∃ m', m.Executes i m') ↔
      ∃ pc c, (i.run (toLong (m.pc + i.size))).run m.toCpu = .ok pc c := by
  constructor
  · rintro ⟨m', h⟩
    exact ⟨_, _, h.runs hi⟩
  · rintro ⟨pc, c, h⟩
    refine ⟨m.after i, executes_after ?_⟩
    rw [accepts, run_execute Host.idle hi, h]

end TwelveBit.Machine
