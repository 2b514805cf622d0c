import TwelveBit.Proofs.StepOutcome
import TwelveBit.Proofs.SimpleEffects
/-!
Relations that no instruction can leave. Every effect on the processor is put together from a few
primitive ones: a push, a store, a copy, and new values of the stack pointer, the frame pointer
and the carry. A relation that allows for each of these holds between the processor before and
after any instruction, any delivery of an interrupt and any step, however they end.
-/
namespace TwelveBit

/-- The relation allows for every primitive effect on the processor. New pointers are 24-bit
addresses. -/
structure Stable (R : Cpu → Cpu → Prop) : Prop where
  push : ∀ v, Keeps R (Cpu.push v)
  write : ∀ a v, Keeps R (Cpu.onMemory (Memory.write a v))
  writeLong : ∀ a v, Keeps R (Cpu.onMemory (Memory.writeLong a v))
  copy : ∀ src dst len, Keeps R (Cpu.onMemory (Memory.copy src dst len))
  sp : ∀ (c : Cpu) a, a < 0x1000000 → R c { c with sp := a }
  fp : ∀ (c : Cpu) a, a < 0x1000000 → R c { c with fp := a }
  carry : ∀ (c : Cpu) b, R c { c with carry := b }

namespace Stable
open Cpu
variable {R : Cpu → Cpu → Prop} [IsPreorder Cpu R]

theorem read (a : Nat) : Keeps R (Cpu.read a) := by
  intro c
  rw [run_read]
  split <;> exact Std.Refl.refl c

theorem ofExcept {α : Type} (r : Except Fault α) : Keeps R (Effect.ofExcept r) := by
  cases r with
  | ok a => exact Keeps.of_pure a
  | error f => exact Keeps.of_throw f

variable (h : Stable R)
include h

theorem of_simple {α : Type} {x : Effect α} (hx : Simple x) : Keeps R x := by
  induction hx with
  | pure a => exact Keeps.of_pure a
  | get => exact Keeps.of_get
  | read a => exact read a
  | push v => exact h.push v
  | write a v => exact h.write a v
  | writeLong a v => exact h.writeLong a v
  | copy dst _ _ => exact h.copy _ dst _
  | move hf => exact Keeps.of_modify fun c => h.sp c _ (hf c)
  | bind_of _ hp _ ihx ihf => exact ihx.bind_of hp ihf

theorem enter (ret locals : Nat) : Keeps R (Frame.enter ret locals) :=
  Keeps.of_get.bind fun _ => (h.of_simple (.pushLong _)).bind fun _ =>
    (h.of_simple (.pushLong _)).bind fun _ => (h.push _).bind fun _ =>
      Keeps.of_modify fun c => h.fp c _ (toLong_lt _)

theorem call (target ret : Nat) : Keeps R (Frame.call target ret) :=
  (read _).bind fun _ => (read _).bind fun _ =>
    (Keeps.of_modify fun c => h.sp c _ (back_lt _ _)).bind fun _ =>
      (h.enter _ _).bind fun _ => Keeps.of_pure _

/-- The frame pointer of the caller is read from memory; it is an address because it is put
together from two words. -/
theorem leave : Keeps R Frame.leave :=
  Keeps.of_get.bind fun _ => (read _).bind fun _ => (h.of_simple (.readAt _ _)).bind fun _ =>
    (h.of_simple (.readAt _ _)).bind_of (yields_readAt_long _) fun caller hc =>
      (Keeps.of_modify fun c =>
        IsTrans.trans _ _ _ (h.sp c _ (back_lt _ _)) (h.fp _ caller hc)).bind fun _ =>
          Keeps.of_pure _

theorem interrupt (irq : Interrupt) (ret : Nat) : Keeps R (Frame.interrupt irq ret) :=
  (h.of_simple (.pushAll _)).bind fun _ => h.enter _ _

theorem finish (w : Width) (r : AluResult) : Keeps R (AluOp.finish w r) := by
  refine (h.of_simple (.pushAt w r.value)).bind fun _ => ?_
  cases r.carry with
  | none => exact Keeps.of_pure _
  | some b => exact Keeps.of_modify fun c => h.carry c b

theorem alu (op : AluOp) : Keeps R op.run := by
  cases op with
  | binary op w =>
    exact (h.of_simple (.popAt w)).bind fun _ => (h.of_simple (.popAt w)).bind fun _ =>
      (ofExcept _).bind fun _ => h.finish w _
  | unary op w =>
    exact (h.of_simple (.popAt w)).bind fun _ => Keeps.of_get.bind fun _ => h.finish w _
  | wideMul =>
    exact (h.of_simple .pop).bind fun _ => (h.of_simple .pop).bind fun _ => h.finish _ _
  | widen | widenSigned => exact (h.of_simple .pop).bind fun _ => h.finish _ _
  | narrow => exact (h.of_simple .popLong).bind fun _ => h.finish _ _

theorem instruction (next : Nat) (i : Instruction) : Keeps R (i.run next) := by
  cases i.kind next with
  | simple hi => exact h.of_simple hi
  | call target => exact h.call target next
  | callAt => exact (h.of_simple .popLong).bind fun _ => h.call _ _
  | ret => exact h.leave
  | retWord =>
    exact (h.of_simple .pop).bind fun _ => h.leave.bind fun _ => (h.push _).bind fun _ =>
      Keeps.of_pure _
  | retLong =>
    exact (h.of_simple .popLong).bind fun _ => h.leave.bind fun _ =>
      (h.of_simple (.pushLong _)).bind fun _ => Keeps.of_pure _
  | alu op => exact (h.alu op).bind fun _ => Keeps.of_pure _

end Stable

def OnCpu {σ : Type} (R : Cpu → Cpu → Prop) (p q : Machine × σ) : Prop := R p.1.toCpu q.1.toCpu

instance {σ : Type} (R : Cpu → Cpu → Prop) [IsPreorder Cpu R] :
    IsPreorder (Machine × σ) (OnCpu R) where
  refl _ := Std.Refl.refl (r := R) _
  trans _ _ _ h h' := IsTrans.trans (r := R) _ _ _ h h'

namespace Stable
open Machine
variable {R : Cpu → Cpu → Prop} [IsPreorder Cpu R] {σ α : Type} (host : Host σ)

/-- Nothing has been done to the processor. -/
theorem same {m m' : Machine} {s s' : σ} (h : m'.toCpu = m.toCpu) :
    OnCpu R (m, s) (m', s') := by
  show R m.toCpu m'.toCpu
  rw [h]
  exact Std.Refl.refl _

theorem tell (e : Event) : Keeps (OnCpu R) (Machine.tell host e) := fun _ => same rfl

theorem access (a : Access) (f : Line → α × Line) :
    Keeps (OnCpu R) (Machine.access host a f) := fun _ => same rfl

theorem complete (i : Instruction) : Keeps (OnCpu R) (Machine.complete host i) :=
  fun _ => same rfl

omit [IsPreorder Cpu R] in
theorem attempt {x : Effect α} (hx : Keeps R x) :
    Keeps (OnCpu R) (Machine.attempt (σ := σ) x) := by
  intro (m, s)
  rw [leftBehind_attempt]
  exact hx m.toCpu

variable (h : Stable R)
include h

/-- Outside of instructions a step leaves the processor alone once it has polled the line. -/
theorem allows : Allows host (OnCpu R) where
  consult := by
    intro (m, s)
    rw [leftBehind_consult]
    exact same rfl
  tell e _ := tell host e
  instruction next i := attempt (h.instruction next i)
  pc _ _ _ := same rfl
  halted _ _ _ := same rfl
  look a f := access host a _
  complete i _ := complete host i
  switch i on _ := (access host _ _).bind fun _ => complete host i

theorem poll : Keeps (OnCpu R) (Machine.poll host) := by
  intro (m, s)
  have interrupted {irq : Interrupt} {k : Machine} {u : σ} (taken : Takes host m s irq k u) :
      R m.toCpu (leftBehind ((Frame.interrupt irq k.pc).run k.toCpu)) := by
    cases taken
    exact h.interrupt irq _ _
  have hp := polled host m s
  generalize (Machine.poll host).run (m, s) = r at hp ⊢
  cases hp with
  | closed | idle => exact same rfl
  | stopped taken source =>
    cases taken
    exact same rfl
  | trapped taken source fault =>
    have hi := interrupted taken
    rwa [fault] at hi
  | delivered taken source entered hn =>
    have hi := interrupted taken
    rw [entered] at hi
    rw [hn]
    exact hi

theorem execute (i : Instruction) : Keeps (OnCpu R) (Machine.execute host i) :=
  (h.allows host).execute i

theorem ready {m k : Machine} {s u : σ} (hr : Ready host m s k u) : R m.toCpu k.toCpu :=
  Keeps.of_ok (R := OnCpu R) ((h.poll host).bind fun _ => (h.allows host).consult) hr

/-- The machine that a step found, and the one that was about to do what trapped. -/
theorem traps {m k m' : Machine} {s u s' : σ} {a : Activity} {t : Trap}
    (ht : Traps host m s a k u t m' s') : R m.toCpu k.toCpu := by
  cases ht with
  | delivery taken source fault =>
    cases taken
    exact Std.Refl.refl _
  | fetch hr fault => exact h.ready host hr
  | execution hr fetched fault => exact h.ready host hr

/-- A step leaves the relation in no way: not by a trap in the middle of an instruction, and not
by a delivery that fails. -/
theorem step (m : Machine) (s : σ) : R m.toCpu (m.step host s).2.1.toCpu :=
  (h.allows host).step (h.poll host) m s

theorem wake (m : Machine) (s : σ) : R m.toCpu (m.wake host s).2.1.toCpu :=
  (h.allows host).wake m s

end Stable
end TwelveBit
