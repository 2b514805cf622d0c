import TwelveBit.Opcode
/-!
Jumps. The word behind the opcode is the mode: a condition, with the target behind it, or the
relative mode, which takes a signed distance from the stack and is never conditional.
-/
namespace TwelveBit

inductive Condition where
  | always
  | zero (w : Width)
  | nonzero (w : Width)
  | carry
  | noCarry
  | positive (w : Width)
  | negative (w : Width)
  | nonnegative (w : Width)
  | nonpositive (w : Width)
  | equal
  | different
  deriving DecidableEq, Repr

inductive JumpMode where
  | when (c : Condition)
  | relative
  deriving DecidableEq, Repr

namespace Condition

def number : Condition → Nat
  | always => 0
  | zero .word => 1
  | nonzero .word => 2
  | zero .long => 3
  | nonzero .long => 4
  | carry => 5
  | noCarry => 6
  | positive .word => 7
  | negative .word => 8
  | positive .long => 9
  | negative .long => 10
  | nonnegative .word => 11
  | nonpositive .word => 12
  | nonnegative .long => 13
  | nonpositive .long => 14
  | equal => 15
  | different => 16

def mnemonic : Condition → String
  | always => "jmp"
  | zero w => "jz" ++ w.suffix
  | nonzero w => "jnz" ++ w.suffix
  | carry => "jc"
  | noCarry => "jnc"
  | positive w => "jgz" ++ w.suffix
  | negative w => "jlz" ++ w.suffix
  | nonnegative w => "jgez" ++ w.suffix
  | nonpositive w => "jlez" ++ w.suffix
  | equal => "jeq"
  | different => "jne"

end Condition

namespace JumpMode

def number : JumpMode → Nat
  | .when c => c.number
  | relative => 17

def mnemonic : JumpMode → String
  | .when c => c.mnemonic
  | relative => "jro"

def all : List JumpMode :=
  [.when .always, .when (.zero .word), .when (.nonzero .word), .when (.zero .long),
    .when (.nonzero .long), .when .carry, .when .noCarry, .when (.positive .word),
    .when (.negative .word), .when (.positive .long), .when (.negative .long),
    .when (.nonnegative .word), .when (.nonpositive .word), .when (.nonnegative .long),
    .when (.nonpositive .long), .when .equal, .when .different, .relative]

def ofNumber? (n : Nat) : Option JumpMode := all.find? fun m => m.number = n

theorem mem_all (m : JumpMode) : m ∈ all := by
  rcases m with c | _
  · cases c <;> first | decide | (rename_i w; cases w <;> decide)
  · decide

theorem numbers_count : all.map number = List.range 18 := by decide

end JumpMode

inductive Jump where
  | absolute (c : Condition) (target : Nat)
  | relative
  deriving DecidableEq, Repr

def Jump.mode : Jump → JumpMode
  | absolute c _ => .when c
  | relative => .relative

end TwelveBit
