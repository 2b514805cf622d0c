import TwelveBit.Jump
/-!
Instructions: an opcode with its operand, the words that encode it, and the line of text that
names it.
-/
namespace TwelveBit

inductive Instruction where
  | system (op : SystemOp)
  | plain (op : PlainOp)
  | word (op : WordOp) (k : Nat)
  | long (op : LongOp) (v : Nat)
  | jump (j : Jump)
  deriving DecidableEq, Repr

namespace Instruction

def opcode : Instruction → Opcode
  | system op => .system op
  | plain op => .plain op
  | word op _ => .word op
  | long op _ => .long op
  | jump _ => .jump

def size : Instruction → Nat
  | system _ | plain _ => 1
  | word _ _ => 2
  | long _ _ => 3
  | jump (.absolute _ _) => 4
  | jump .relative => 2

theorem size_pos (i : Instruction) : 0 < i.size := by
  rcases i with _ | _ | _ | _ | j <;>
    first | exact Nat.succ_pos _ | (cases j <;> exact Nat.succ_pos _)

def encode : Instruction → List Nat
  | system op => [op.number]
  | plain op => [op.number]
  | word op k => [op.number, toWord k]
  | long op v => [op.number, high v, low v]
  | jump (.absolute c target) => [Opcode.jump.number, c.number, high target, low target]
  | jump .relative => [Opcode.jump.number, JumpMode.relative.number]

def target? : Instruction → Option Nat
  | long .push _ => none
  | long _ a => some a
  | jump (.absolute _ a) => some a
  | _ => none

def mnemonic : Instruction → String
  | jump j => j.mode.mnemonic
  | i => i.opcode.mnemonic

def text (i : Instruction) : String :=
  match i with
  | word _ k => i.mnemonic ++ " " ++ Hex.literal 3 k
  | long _ v => i.mnemonic ++ " " ++ Hex.literal 6 v
  | jump (.absolute _ a) => i.mnemonic ++ " " ++ Hex.literal 6 a
  | _ => i.mnemonic

inductive Family where
  | system | stack | memory | frame | jump | alu
  deriving DecidableEq, Repr

def family : Instruction → Family
  | system _ => .system
  | plain (.pop _) | plain (.dup _) | plain (.swap _) | plain .dupSecond => .stack
  | plain (.loadAt _) | plain (.storeAt _) | plain .copy => .memory
  | plain .callAt | plain .ret | plain .retWord | plain .retLong => .frame
  | plain (.alu _) => .alu
  | word .push _ => .stack
  | word _ _ => .frame
  | long .push _ => .stack
  | long .call _ => .frame
  | long _ _ => .memory
  | jump _ => .jump

end Instruction
end TwelveBit
