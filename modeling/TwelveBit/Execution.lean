import TwelveBit.Frame
import TwelveBit.Instruction
/-!
What each instruction does to the processor, and which instruction comes next. Operands are popped
before anything is computed, and the carry changes last.
-/
namespace TwelveBit
open Cpu

def Effect.ofExcept {α : Type} (r : Except Fault α) : Effect α :=
  match r with
  | .ok a => pure a
  | .error f => throw f

namespace AluOp

def finish (w : Width) (r : AluResult) : Effect Unit := do
  pushAt w r.value
  match r.carry with
  | some carry => modify fun c => { c with carry := carry }
  | none => pure ()

def run : AluOp → Effect Unit
  | binary op w => do
    let b ← popAt w
    let a ← popAt w
    finish w (← Effect.ofExcept (op.apply w a b))
  | unary op w => do
    let a ← popAt w
    finish w (op.apply w a (← get).carry)
  | wideMul => do
    let b ← pop
    let a ← pop
    finish .long (wideProduct a b)
  | widen => do
    finish .long (.plain (← pop))
  | widenSigned => do
    finish .long (.plain (Width.word.signed (← pop) % 0x1000000).toNat)
  | narrow => do
    finish .word (.plain (low (← popLong)))

end AluOp

def Condition.holds : Condition → Effect Bool
  | always => pure true
  | zero w => return (← popAt w) = 0
  | nonzero w => return (← popAt w) ≠ 0
  | carry => return (← get).carry
  | noCarry => return !(← get).carry
  | positive w => return 0 < w.signed (← popAt w)
  | negative w => return w.signed (← popAt w) < 0
  | nonnegative w => return 0 ≤ w.signed (← popAt w)
  | nonpositive w => return w.signed (← popAt w) ≤ 0
  | equal => do
    let b ← pop
    let a ← pop
    return a = b
  | different => do
    let b ← pop
    let a ← pop
    return a ≠ b

def Jump.run (next : Nat) : Jump → Effect Nat
  | absolute c target => return if ← c.holds then target else next
  | relative => do
    let distance ← pop
    return ((next + Width.word.signed distance) % 0x1000000).toNat

namespace PlainOp

def run (next : Nat) : PlainOp → Effect Nat
  | pop w => do
    let _ ← popAt w
    return next
  | dup w => do
    let v ← popAt w
    pushAt w v
    pushAt w v
    return next
  | swap w => do
    let b ← popAt w
    let a ← popAt w
    pushAt w b
    pushAt w a
    return next
  | dupSecond => do
    let b ← Cpu.pop
    let a ← Cpu.pop
    push a
    push b
    push a
    return next
  | loadAt w => do
    let a ← popLong
    pushAt w (← readAt w a)
    return next
  | storeAt w => do
    let v ← popAt w
    let a ← popLong
    writeAt w a v
    return next
  | copy => do
    let len ← popLong
    let dst ← popLong
    let src ← popLong
    onMemory (Memory.copy src dst len)
    return next
  | callAt => do
    Frame.call (← popLong) next
  | ret => Frame.leave
  | retWord => do
    let v ← Cpu.pop
    let pc ← Frame.leave
    push v
    return pc
  | retLong => do
    let v ← popLong
    let pc ← Frame.leave
    pushLong v
    return pc
  | alu op => do
    op.run
    return next

end PlainOp

def WordOp.run (k : Nat) : WordOp → Effect Unit
  | push => Cpu.push k
  | loadLocal w => do
    pushAt w (← readAt w (← Frame.localAddr k))
  | storeLocal w => do
    -- here the address is found before the value is popped
    let a ← Frame.localAddr k
    writeAt w a (← popAt w)
  | addrLocal => do
    pushLong (← Frame.localAddr k)

def LongOp.run (next v : Nat) : LongOp → Effect Nat
  | push => do
    pushLong v
    return next
  | load w => do
    pushAt w (← readAt w v)
    return next
  | store w => do
    writeAt w v (← popAt w)
    return next
  | call => Frame.call v next

def Instruction.run (next : Nat) : Instruction → Effect Nat
  | system _ => pure next
  | plain op => op.run next
  | word op k => do
    op.run k
    return next
  | long op v => op.run next v
  | jump j => j.run next

end TwelveBit
