import TwelveBit.Word
import TwelveBit.Hex
/-!
What can go wrong: faults of an instruction, the trap that ends a run because of one, and the
reasons for refusing a layout or a program image. Each has one line of text.
-/
namespace TwelveBit

inductive Fault where
  | unknownOpcode (op : Nat)
  | unknownJumpMode (mode : Nat)
  | romWrite (addr : Nat)
  | outOfRange (addr : Nat)
  | divideByZero
  deriving DecidableEq, Repr

def Fault.message : Fault → String
  | unknownOpcode op => "unknown opcode " ++ Hex.literal 3 op
  | unknownJumpMode mode => "unknown jump mode " ++ toString mode
  | romWrite addr => "write to ROM address " ++ Hex.literal 6 addr
  | outOfRange addr => "address " ++ Hex.literal 6 addr ++ " is out of range"
  | divideByZero => "division by zero"

structure Trap where
  pc : Nat
  fault : Fault
  deriving DecidableEq, Repr

def Trap.message (t : Trap) : String :=
  "fault at pc " ++ Hex.literal 6 t.pc ++ ": " ++ t.fault.message

inductive LoadError where
  | truncated (offset : Nat)
  | negativeCount (offset : Nat) (count : Int)
  | outsideRom (start : Int) (len romSize : Nat)
  | layoutTooLarge (total : Nat)
  deriving DecidableEq, Repr

def LoadError.message : LoadError → String
  | truncated offset => "image truncated at byte " ++ toString offset
  | negativeCount offset count =>
    "block at byte " ++ toString offset ++ " has negative length " ++ toString count
  | outsideRom start len romSize =>
    "block [" ++ toString start ++ ", " ++ toString start ++ " + " ++ toString len ++
      ") does not fit in " ++ toString romSize ++ "-word ROM"
  | layoutTooLarge total =>
    "memory layout of " ++ Hex.literal 1 total ++ " words exceeds the 24-bit address space"

end TwelveBit
