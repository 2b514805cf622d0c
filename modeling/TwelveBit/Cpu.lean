import TwelveBit.Memory
/-!
The processor: memory and the registers that instructions change on their way. The stack lies in
memory and grows upwards; the stack pointer is the address of its top word. An effect that
fails leaves behind whatever it had done until then.
-/
namespace TwelveBit

structure Cpu where
  memory : Memory
  sp : Nat
  fp : Nat
  carry : Bool
  highWater : Nat -- the highest address a push has written

abbrev Effect := EStateM Fault Cpu

namespace Cpu

def read (a : Nat) : Effect Nat := fun c =>
  match c.memory.read a with
  | .ok w => .ok w c
  | .error f => .error f c

def onMemory (x : Memory.Action Unit) : Effect Unit := fun ⟨memory, sp, fp, carry, highWater⟩ =>
  -- the processor is taken apart so that nothing else holds the memory while it changes
  match x memory with
  | .ok () memory => .ok () ⟨memory, sp, fp, carry, highWater⟩
  | .error f memory => .error f ⟨memory, sp, fp, carry, highWater⟩

def push (v : Nat) : Effect Unit := do
  let sp := Memory.next (← get).sp
  onMemory (Memory.write sp v)
  modify fun c => { c with sp := sp, highWater := max c.highWater sp }

def pop : Effect Nat := do
  let v ← read (← get).sp
  modify fun c => { c with sp := back c.sp 1 }
  return v

def pushLong (v : Nat) : Effect Unit := do
  push (high v)
  push (low v)

def popLong : Effect Nat := do
  let low ← pop
  let high ← pop
  return join high low

def pushAt : Width → Nat → Effect Unit
  | .word, v => push v
  | .long, v => pushLong v

def popAt : Width → Effect Nat
  | .word => pop
  | .long => popLong

def readAt : Width → Nat → Effect Nat
  | .word, a => read a
  | .long, a => do
    let high ← read a
    let low ← read (Memory.next a)
    return join high low

def writeAt : Width → Nat → Nat → Effect Unit
  | .word, a, v => onMemory (Memory.write a v)
  | .long, a, v => onMemory (Memory.writeLong a v)

def pushAll : List Nat → Effect Unit
  | [] => pure ()
  | v :: vs => do
    push v
    pushAll vs

theorem run_onMemory (x : Memory.Action Unit) (c : Cpu) :
    (onMemory x).run c =
      match x.run c.memory with
      | .ok () m => .ok () { c with memory := m }
      | .error f m => .error f { c with memory := m } := rfl

theorem run_read (a : Nat) (c : Cpu) :
    (read a).run c =
      if a < c.memory.layout.total then .ok (c.memory.word a) c else .error (.outOfRange a) c := by
  by_cases h : a < c.memory.layout.total <;> simp [EStateM.run, read, Memory.read, h]

theorem run_write (a v : Nat) (c : Cpu) :
    (onMemory (Memory.write a v)).run c =
      match c.memory.refusal? a with
      | some f => .error f c
      | none => .ok () { c with memory := c.memory.put a v } := by
  simp only [EStateM.run, onMemory, Memory.write]
  cases c.memory.refusal? a <;> rfl

theorem run_push (v : Nat) (c : Cpu) :
    (push v).run c =
      match c.memory.refusal? (Memory.next c.sp) with
      | some f => .error f c
      | none => .ok ()
          { c with
            memory := c.memory.put (Memory.next c.sp) v
            sp := Memory.next c.sp
            highWater := max c.highWater (Memory.next c.sp) } := by
  simp only [push, EStateM.run_bind, EStateM.run_get, run_write]
  cases c.memory.refusal? (Memory.next c.sp) <;> simp only [EStateM.run_modify]

theorem run_pop (c : Cpu) :
    pop.run c =
      if c.sp < c.memory.layout.total then
        .ok (c.memory.word c.sp) { c with sp := back c.sp 1 }
      else .error (.outOfRange c.sp) c := by
  simp only [pop, EStateM.run_bind, EStateM.run_get, run_read]
  by_cases h : c.sp < c.memory.layout.total
  · simp only [h, if_true, EStateM.run_modify, EStateM.run_pure]
  · simp only [h, if_false]

end Cpu
end TwelveBit
