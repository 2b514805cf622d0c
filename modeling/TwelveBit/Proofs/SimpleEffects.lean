import TwelveBit.Execution
import TwelveBit.Proofs.Keeps
/-!
Simple effects. Most of what instructions do is put together from accesses to memory and moves of
the stack pointer. The only other things that happen to a processor are that a frame is entered or
left, and that an operation of the arithmetic is finished.
-/
namespace TwelveBit

/-- A long that was read is an address, and so is one that was popped. -/
theorem Cpu.yields_readAt_long (a : Nat) : Yields (· < 0x1000000) (readAt .long a) :=
  Yields.of_bind fun high => Yields.of_bind fun low => Yields.of_pure (join_lt high low)

theorem Cpu.yields_popLong : Yields (· < 0x1000000) popLong :=
  Yields.of_bind fun low => Yields.of_bind fun high => Yields.of_pure (join_lt high low)

/-- The effect uses memory and moves the stack pointer. It reaches neither the frame pointer nor
the carry. -/
inductive Simple : {α : Type} → Effect α → Prop
  | pure {α : Type} (a : α) : Simple (Pure.pure a : Effect α)
  | get : Simple (MonadState.get : Effect Cpu)
  | read (a : Nat) : Simple (Cpu.read a)
  | push (v : Nat) : Simple (Cpu.push v)
  | write (a v : Nat) : Simple (Cpu.onMemory (Memory.write a v))
  | writeLong (a v : Nat) : Simple (Cpu.onMemory (Memory.writeLong a v))
  | copy {src len : Nat} (dst : Nat) (hs : src < 0x1000000) (hl : len < 0x1000000) :
      Simple (Cpu.onMemory (Memory.copy src dst len))
  | move {f : Cpu → Nat} (hf : ∀ c, f c < 0x1000000) :
      Simple (modify fun c => { c with sp := f c } : Effect PUnit)
  | bind_of {α β : Type} {x : Effect α} {f : α → Effect β} {p : α → Prop} (hx : Simple x)
      (hp : Yields p x) (hf : ∀ a, p a → Simple (f a)) : Simple (x >>= f)

namespace Simple
open Cpu

theorem bind {α β : Type} {x : Effect α} {f : α → Effect β} (hx : Simple x)
    (hf : ∀ a, Simple (f a)) : Simple (x >>= f) :=
  hx.bind_of (p := fun _ => True) (fun _ _ _ _ => trivial) fun a _ => hf a

theorem pop : Simple Cpu.pop :=
  get.bind fun _ => (read _).bind fun _ => (move fun c => back_lt c.sp 1).bind fun _ => pure _

theorem pushLong (v : Nat) : Simple (Cpu.pushLong v) := (push _).bind fun _ => push _

theorem popLong : Simple Cpu.popLong := pop.bind fun _ => pop.bind fun _ => pure _

theorem pushAt (w : Width) (v : Nat) : Simple (Cpu.pushAt w v) := by
  cases w with
  | word => exact push v
  | long => exact pushLong v

theorem popAt (w : Width) : Simple (Cpu.popAt w) := by
  cases w with
  | word => exact pop
  | long => exact popLong

theorem readAt (w : Width) (a : Nat) : Simple (Cpu.readAt w a) := by
  cases w with
  | word => exact read a
  | long => exact (read a).bind fun _ => (read _).bind fun _ => pure _

theorem writeAt (w : Width) (a v : Nat) : Simple (Cpu.writeAt w a v) := by
  cases w with
  | word => exact write a v
  | long => exact writeLong a v

theorem pushAll (vs : List Nat) : Simple (Cpu.pushAll vs) := by
  induction vs with
  | nil => exact pure ()
  | cons v vs ih => exact (push v).bind fun _ => ih

theorem localAddr (k : Nat) : Simple (Frame.localAddr k) :=
  (get.bind fun _ => (read _).bind fun _ => pure _).bind fun _ => pure _

theorem holds (cond : Condition) : Simple cond.holds := by
  cases cond with
  | always => exact pure _
  | carry | noCarry => exact get.bind fun _ => pure _
  | equal | different => exact pop.bind fun _ => pop.bind fun _ => pure _
  | zero w | nonzero w | positive w | negative w | nonnegative w | nonpositive w =>
    exact (popAt w).bind fun _ => pure _

theorem jump (next : Nat) (j : Jump) : Simple (j.run next) := by
  cases j with
  | absolute cond target =>
    refine (holds cond).bind fun taken => ?_
    cases taken <;> exact pure _
  | relative => exact pop.bind fun _ => pure _

theorem word (k : Nat) (op : WordOp) : Simple (op.run k) := by
  cases op with
  | push => exact push k
  | loadLocal w => exact (localAddr k).bind fun _ => (readAt w _).bind fun _ => pushAt w _
  | storeLocal w => exact (localAddr k).bind fun _ => (popAt w).bind fun _ => writeAt w _ _
  | addrLocal => exact (localAddr k).bind fun _ => pushLong _

/-- The source and the length of a copy are longs, so no address in it needs more than 32 bits. -/
theorem copying (next : Nat) : Simple (PlainOp.copy.run next) :=
  popLong.bind_of yields_popLong fun _ hl => popLong.bind fun _ =>
    popLong.bind_of yields_popLong fun _ hs => (copy _ hs hl).bind fun _ => pure _

/-- What does not look at memory, the stack pointer or its highest value notices nothing. -/
theorem keeps {R : Cpu → Cpu → Prop} [IsPreorder Cpu R]
    (hR : ∀ (c : Cpu) memory sp highWater, R c ⟨memory, sp, c.fp, c.carry, highWater⟩) {α : Type}
    {x : Effect α} (hx : Simple x) : Keeps R x := by
  have stored (x : Memory.Action Unit) : Keeps R (onMemory x) := by
    intro c
    rw [run_onMemory]
    cases x.run c.memory <;> exact hR c _ _ _
  induction hx with
  | pure a => exact Keeps.of_pure a
  | get => exact Keeps.of_get
  | read a =>
    intro c
    rw [run_read]
    split <;> exact Std.Refl.refl c
  | push v =>
    intro c
    rw [run_push]
    cases c.memory.refusal? (Memory.next c.sp) with
    | some f => exact Std.Refl.refl c
    | none => exact hR c _ _ _
  | write | writeLong | copy => exact stored _
  | move hf => exact Keeps.of_modify fun c => hR c _ _ _
  | bind_of _ hp _ ihx ihf => exact ihx.bind_of hp ihf

end Simple

inductive Instruction.Kind (next : Nat) : Instruction → Prop
  | simple {i : Instruction} (h : Simple (i.run next)) : Kind next i
  | call (target : Nat) : Kind next (.long .call target)
  | callAt : Kind next (.plain .callAt)
  | ret : Kind next (.plain .ret)
  | retWord : Kind next (.plain .retWord)
  | retLong : Kind next (.plain .retLong)
  | alu (op : AluOp) : Kind next (.plain (.alu op))

open Simple in
theorem Instruction.kind (next : Nat) (i : Instruction) : i.Kind next := by
  cases i with
  | system op => exact .simple (pure next)
  | word op k => exact .simple ((Simple.word k op).bind fun _ => pure next)
  | jump j => exact .simple (Simple.jump next j)
  | long op v =>
    cases op with
    | push => exact .simple ((pushLong v).bind fun _ => pure _)
    | load w => exact .simple ((readAt w v).bind fun _ => (pushAt w _).bind fun _ => pure _)
    | store w => exact .simple ((popAt w).bind fun _ => (writeAt w v _).bind fun _ => pure _)
    | call => exact .call v
  | plain op =>
    cases op with
    | pop w => exact .simple ((popAt w).bind fun _ => pure _)
    | dup w =>
      exact .simple ((popAt w).bind fun _ => (pushAt w _).bind fun _ => (pushAt w _).bind fun _ =>
        pure _)
    | swap w =>
      exact .simple ((popAt w).bind fun _ => (popAt w).bind fun _ => (pushAt w _).bind fun _ =>
        (pushAt w _).bind fun _ => pure _)
    | dupSecond =>
      exact .simple (pop.bind fun _ => pop.bind fun _ => (push _).bind fun _ =>
        (push _).bind fun _ => (push _).bind fun _ => pure _)
    | loadAt w =>
      exact .simple (popLong.bind fun _ => (readAt w _).bind fun _ => (pushAt w _).bind fun _ =>
        pure _)
    | storeAt w =>
      exact .simple ((popAt w).bind fun _ => popLong.bind fun _ => (writeAt w _ _).bind fun _ =>
        pure _)
    | copy => exact .simple (copying next)
    | callAt => exact .callAt
    | ret => exact .ret
    | retWord => exact .retWord
    | retLong => exact .retLong
    | alu op => exact .alu op

end TwelveBit
