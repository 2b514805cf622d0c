import TwelveBit.Fault
/-!
Arithmetic on words and longs. Each operation is one rule for both widths: it works on exact
integers, keeps the low bits of the result, and reports in the carry what the low bits lost.
-/
namespace TwelveBit

structure AluResult where
  value : Nat
  carry : Option Bool
  deriving DecidableEq, Repr

namespace AluResult

def above (w : Width) (v : Int) : AluResult :=
  ⟨(v % w.size).toNat, some (decide ((w.size : Int) ≤ v))⟩

def below (w : Width) (v : Int) : AluResult :=
  ⟨(v % w.size).toNat, some (decide (v < 0))⟩

def plain (v : Nat) : AluResult := ⟨v, none⟩

end AluResult

inductive BinaryOp where
  | add | sub | mul | div | mod | or | xor | and
  deriving DecidableEq, Repr

def BinaryOp.apply (op : BinaryOp) (w : Width) (a b : Nat) : Except Fault AluResult :=
  let a := w.truncate a
  let b := w.truncate b
  match op with
  | add => .ok (.above w (a + b))
  | sub => .ok (.above w (a - b))
  | mul => .ok (.above w (a * b))
  | div => if b = 0 then .error .divideByZero else .ok (.above w (a / b : Nat))
  | mod => if b = 0 then .error .divideByZero else .ok (.above w (a % b : Nat))
  | or => .ok (.plain (a ||| b))
  | xor => .ok (.plain (a ^^^ b))
  | and => .ok (.plain (a &&& b))

inductive UnaryOp where
  | neg | not | inc | dec | shl | shr | sar
  | rotLeft
  | rotRight
  deriving DecidableEq, Repr

def UnaryOp.apply (op : UnaryOp) (w : Width) (a : Nat) (carry : Bool) : AluResult :=
  let a := w.truncate a
  let top := decide (w.signBit ≤ a)
  let bottom := decide (a % 2 = 1)
  match op with
  | neg => .below w (-a)
  | not => ⟨w.mask - a, some false⟩
  | inc => .above w (a + 1)
  | dec => .below w (a - 1)
  | shl => ⟨w.truncate (2 * a), some top⟩
  | shr => ⟨a / 2, some bottom⟩
  | sar => ⟨a / 2 + (if top then w.signBit else 0), some bottom⟩
  | rotLeft => ⟨w.truncate (2 * a) + carry.toNat, some top⟩
  | rotRight => ⟨a / 2 + (if carry then w.signBit else 0), some bottom⟩

def wideProduct (a b : Nat) : AluResult := .above .long (toWord a * toWord b : Nat)

inductive AluOp where
  | binary (op : BinaryOp) (w : Width)
  | unary (op : UnaryOp) (w : Width)
  | wideMul
  | widen
  | widenSigned
  | narrow
  deriving DecidableEq, Repr

theorem AluResult.above_value_lt (w : Width) (v : Int) : (above w v).value < w.size := by
  have := w.size_pos
  have := Int.emod_lt_of_pos v (b := w.size) (by omega)
  simp only [above]
  omega

theorem AluResult.below_value_lt (w : Width) (v : Int) : (below w v).value < w.size :=
  above_value_lt w v

end TwelveBit
