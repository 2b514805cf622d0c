import Mathlib.Algebra.Order.Ring.Int
import TwelveBit.Arithmetic
/-!
Exact arithmetic. What an operation gives is told by the numbers that its operands stand for, or by
their bits. A width of `n` bits computes modulo `2 ^ n`, and the carry tells what was lost.
-/
namespace TwelveBit

namespace Width
variable (w : Width)

theorem size_eq_pow : w.size = 2 ^ w.bits := by cases w <;> rfl

theorem mod_eq_truncate (v : Nat) : v % 2 ^ w.bits = w.truncate v := by
  rw [← size_eq_pow]
  rfl

/-- In two's complement a number is the only one in its range with these low bits. -/
theorem signed_range (v : Nat) :
    -2 ^ (w.bits - 1) ≤ w.signed v ∧ w.signed v < 2 ^ (w.bits - 1) ∧
      w.signed v % 2 ^ w.bits = (v % 2 ^ w.bits : Nat) := by
  cases w <;> simp only [signed, size, signBit, bits] <;> omega

/-- The top bit tells whether a number reaches the upper half of its width. -/
theorem testBit_top {a : Nat} (ha : a < w.size) :
    a.testBit (w.bits - 1) = decide (w.signBit ≤ a) := by
  rw [Nat.testBit_eq_decide_div_mod_eq, decide_eq_decide]
  cases w <;> simp only [signBit, size, bits] at ha ⊢ <;> omega

end Width

def AluResult.residue (w : Width) (v : Int) (carry : Bool) : AluResult :=
  ⟨(v % 2 ^ w.bits).toNat, some carry⟩

namespace AluResult
variable {w : Width}

theorem above_eq_residue {v : Int} {carry : Bool} (h : carry = true ↔ (w.size : Int) ≤ v) :
    above w v = residue w v carry := by
  have hcarry : decide ((w.size : Int) ≤ v) = carry := Bool.eq_iff_iff.2 (by simp [h])
  rw [above, residue, hcarry, w.size_eq_pow]
  norm_cast

theorem below_eq_residue {v : Int} {carry : Bool} (h : carry = true ↔ v < 0) :
    below w v = residue w v carry := by
  have hcarry : decide (v < 0) = carry := Bool.eq_iff_iff.2 (by simp [h])
  rw [below, residue, hcarry, w.size_eq_pow]
  norm_cast

/-- A number that fits loses nothing. -/
theorem above_of_lt {v : Nat} (h : v < w.size) : above w v = ⟨v, some false⟩ := by
  have hle : ¬ (w.size : Int) ≤ v := by omega
  have hmod : (v : Int) % w.size = v := Int.emod_eq_of_lt (by omega) (by omega)
  rw [above, decide_eq_false hle, hmod, Int.toNat_natCast]

end AluResult

structure BinaryOp.Exact (w : Width) (a b : Nat) (result : BinaryOp → Except Fault AluResult) :
    Prop where
  add : result .add = .ok (.residue w (a + b) (decide (2 ^ w.bits ≤ a + b)))
  sub : result .sub = .ok (.residue w (a - b) false)
  mul : result .mul = .ok (.residue w (a * b) (decide (2 ^ w.bits ≤ a * b)))
  divide : b ≠ 0 → ∃ q r, result .div = .ok ⟨q, some false⟩ ∧ result .mod = .ok ⟨r, some false⟩ ∧
    ∀ q' r', a = q' * b + r' ∧ r' < b ↔ q' = q ∧ r' = r
  fails : ∀ op f, result op = .error f ↔ f = .divideByZero ∧ (op = .div ∨ op = .mod) ∧ b = 0
  or : ∃ v, result .or = .ok (.plain v) ∧ ∀ i, v.testBit i = (a.testBit i || b.testBit i)
  xor : ∃ v, result .xor = .ok (.plain v) ∧ ∀ i, v.testBit i = (a.testBit i ^^ b.testBit i)
  and : ∃ v, result .and = .ok (.plain v) ∧ ∀ i, v.testBit i = (a.testBit i && b.testBit i)
  lt : ∀ op r, result op = .ok r → r.value < 2 ^ w.bits

namespace BinaryOp
open AluResult
variable (w : Width) {a b : Nat}

theorem div_mod_unique (hb : b ≠ 0) (q r : Nat) :
    a = q * b + r ∧ r < b ↔ q = a / b ∧ r = a % b := by
  constructor
  · rintro ⟨rfl, hr⟩
    have hpos : 0 < b := Nat.pos_of_ne_zero hb
    rw [Nat.mul_comm, Nat.mul_add_div hpos, Nat.mul_add_mod, Nat.div_eq_of_lt hr,
      Nat.mod_eq_of_lt hr]
    exact ⟨rfl, rfl⟩
  · rintro ⟨rfl, rfl⟩
    exact ⟨(Nat.div_add_mod' a b).symm, Nat.mod_lt a (Nat.pos_of_ne_zero hb)⟩

theorem apply_lt {op : BinaryOp} {r : AluResult} (h : op.apply w a b = .ok r) :
    r.value < w.size := by
  have ha := w.truncate_lt a
  have hb := w.truncate_lt b
  have size : ∃ n, w.size = 2 ^ n := ⟨_, w.size_eq_pow⟩
  cases op with
  | add | sub | mul =>
    cases h
    exact AluResult.above_value_lt w _
  | div | mod =>
    simp only [apply] at h
    split at h
    · cases h
    · cases h
      exact AluResult.above_value_lt w _
  | or | xor | and =>
    cases h
    obtain ⟨n, hn⟩ := size
    rw [hn] at ha hb ⊢
    first
      | exact Nat.or_lt_two_pow ha hb
      | exact Nat.xor_lt_two_pow ha hb
      | exact Nat.and_lt_two_pow _ hb

/-- Both operands are cut to the width before anything is computed from them. -/
theorem exact_apply (a b : Nat) :
    Exact w (a % 2 ^ w.bits) (b % 2 ^ w.bits) fun op => op.apply w a b := by
  have size := w.size_eq_pow
  have ha := w.truncate_lt a
  have hb := w.truncate_lt b
  rw [w.mod_eq_truncate, w.mod_eq_truncate]
  generalize hA : w.truncate a = A at ha ⊢
  generalize hB : w.truncate b = B at hb ⊢
  constructor
  case add =>
    simp only [apply, hA, hB]
    rw [above_eq_residue]
    rw [decide_eq_true_iff, ← size]
    norm_cast
  case sub =>
    simp only [apply, hA, hB]
    rw [above_eq_residue]
    simp only [Bool.false_eq_true, false_iff]
    omega
  case mul =>
    simp only [apply, hA, hB]
    rw [above_eq_residue]
    rw [decide_eq_true_iff, ← size]
    norm_cast
  case divide =>
    intro hne
    refine ⟨A / B, A % B, ?_, ?_, div_mod_unique hne⟩
    · have hq : A / B < w.size := (Nat.div_le_self A B).trans_lt ha
      simp only [apply, hA, hB, if_neg hne, above_of_lt hq]
    · have hr : A % B < w.size := (Nat.mod_le A B).trans_lt ha
      simp only [apply, hA, hB, if_neg hne, above_of_lt hr]
  case fails =>
    intro op f
    cases op with
    | div | mod => by_cases hz : B = 0 <;> simp [apply, hB, hz, eq_comm]
    | add | sub | mul | or | xor | and => simp [apply]
  case or => exact ⟨A ||| B, by simp only [apply, hA, hB], fun i => Nat.testBit_or A B i⟩
  case xor => exact ⟨A ^^^ B, by simp only [apply, hA, hB], fun i => Nat.testBit_xor A B i⟩
  case and => exact ⟨A &&& B, by simp only [apply, hA, hB], fun i => Nat.testBit_and A B i⟩
  case lt =>
    intro op r hr
    rw [← size]
    exact apply_lt w hr

end BinaryOp

/-- Every bit of `a` goes up by one place. At the bottom `b` comes in, and the top bit goes out
into the carry. -/
structure AluResult.MovesUp (w : Width) (a : Nat) (b : Bool) (r : AluResult) : Prop where
  lt : r.value < 2 ^ w.bits
  bottom : r.value.testBit 0 = b
  up : ∀ i, i + 1 < w.bits → r.value.testBit (i + 1) = a.testBit i
  carry : r.carry = some (a.testBit (w.bits - 1))

structure AluResult.MovesDown (w : Width) (a : Nat) (b : Bool) (r : AluResult) : Prop where
  lt : r.value < 2 ^ w.bits
  top : r.value.testBit (w.bits - 1) = b
  down : ∀ i, i + 1 < w.bits → r.value.testBit i = a.testBit (i + 1)
  carry : r.carry = some (a.testBit 0)

structure UnaryOp.Exact (w : Width) (a : Nat) (carry : Bool) (result : UnaryOp → AluResult) :
    Prop where
  neg : result .neg = .residue w (-a) (decide (a ≠ 0))
  not : result .not = .residue w (2 ^ w.bits - 1 - a) false
  inc : result .inc = .residue w (a + 1) (decide (a + 1 = 2 ^ w.bits))
  dec : result .dec = .residue w (a - 1) (decide (a = 0))
  shl : (result .shl).MovesUp w a false
  shr : (result .shr).MovesDown w a false
  sar : (result .sar).MovesDown w a (a.testBit (w.bits - 1))
  floor : w.signed (result .sar).value = (w.signed a).fdiv 2
  rotLeft : (result .rotLeft).MovesUp w a carry
  rotRight : (result .rotRight).MovesDown w a carry
  lt : ∀ op, (result op).value < 2 ^ w.bits

namespace UnaryOp
open AluResult
variable (w : Width) {a : Nat}

theorem movesUp_of_lt (ha : a < w.size) (b : Bool) :
    MovesUp w a b ⟨w.truncate (2 * a) + b.toNat, some (decide (w.signBit ≤ a))⟩ := by
  have hb : b.toNat ≤ 1 := b.toNat_le
  have even : w.truncate (2 * a) = 2 * (a % 2 ^ (w.bits - 1)) := by
    cases w <;> simp only [Width.truncate, Width.size, Width.bits] <;> omega
  constructor
  case lt =>
    rw [← w.size_eq_pow]
    cases w <;> simp only [Width.truncate, Width.size] <;> omega
  case bottom =>
    rw [even, Nat.testBit_zero]
    cases b <;> simp [Nat.add_mod]
  case up =>
    intro i hi
    have half : (w.truncate (2 * a) + b.toNat) / 2 = a % 2 ^ (w.bits - 1) := by omega
    rw [Nat.testBit_succ, half, Nat.testBit_mod_two_pow, decide_eq_true (by omega), Bool.true_and]
  case carry => rw [w.testBit_top ha]

theorem movesDown_of_lt (ha : a < w.size) (b : Bool) :
    MovesDown w a b ⟨a / 2 + (if b then w.signBit else 0), some (decide (a % 2 = 1))⟩ := by
  have top : w.signBit = 2 ^ (w.bits - 1) := by cases w <;> rfl
  -- the half leaves the top bit free for the bit that moves in
  have half : a / 2 < 2 ^ (w.bits - 1) := by
    rw [← top]
    cases w <;> simp only [Width.signBit, Width.size] at ha ⊢ <;> omega
  have sum : a / 2 + (if b then w.signBit else 0) = 2 ^ (w.bits - 1) * b.toNat + a / 2 := by
    rw [top]
    cases b <;> simp [Nat.add_comm]
  constructor
  case lt =>
    rw [← w.size_eq_pow]
    cases w <;> cases b <;> simp only [Width.signBit, Width.size] at ha ⊢ <;> simp <;> omega
  case top =>
    simp only [sum]
    rw [Nat.testBit_two_pow_mul_add _ half, if_neg (Nat.lt_irrefl _), Nat.sub_self]
    cases b <;> rfl
  case down =>
    intro i hi
    simp only [sum]
    rw [Nat.testBit_two_pow_mul_add _ half, if_pos (by omega), Nat.testBit_succ]
  case carry => rw [Nat.testBit_zero]

/-- A result of a unary operation fits into its width. -/
theorem apply_lt (op : UnaryOp) (carry : Bool) : (op.apply w a carry).value < w.size := by
  have ha := w.truncate_lt a
  cases op with
  | neg | dec => exact below_value_lt w _
  | inc => exact above_value_lt w _
  | not =>
    have := w.size_pos
    show w.mask - w.truncate a < w.size
    simp only [Width.mask]
    omega
  | shl => exact w.size_eq_pow ▸ (movesUp_of_lt w ha false).lt
  | rotLeft => exact w.size_eq_pow ▸ (movesUp_of_lt w ha carry).lt
  | shr => exact w.size_eq_pow ▸ (movesDown_of_lt w ha false).lt
  | rotRight => exact w.size_eq_pow ▸ (movesDown_of_lt w ha carry).lt
  | sar => exact w.size_eq_pow ▸ (movesDown_of_lt w ha (decide (w.signBit ≤ w.truncate a))).lt

/-- Halving towards the floor, also below zero. -/
theorem signed_sar (ha : a < w.size) :
    w.signed (a / 2 + (if decide (w.signBit ≤ a) then w.signBit else 0)) =
      (w.signed a).fdiv 2 := by
  rw [Int.fdiv_eq_ediv_of_nonneg _ (by decide)]
  by_cases h : w.signBit ≤ a
  · rw [if_pos (decide_eq_true h)]
    cases w <;> simp only [Width.signed, Width.signBit, Width.size] at ha h ⊢ <;> omega
  · rw [if_neg (by simp [h])]
    cases w <;> simp only [Width.signed, Width.signBit, Width.size] at ha h ⊢ <;> omega

theorem exact_apply (a : Nat) (carry : Bool) :
    Exact w (a % 2 ^ w.bits) carry fun op => op.apply w a carry := by
  have size := w.size_eq_pow
  have ha := w.truncate_lt a
  rw [w.mod_eq_truncate]
  have lt (op : UnaryOp) := apply_lt w (a := a) op carry
  have shl := movesUp_of_lt w ha false
  have rotLeft := movesUp_of_lt w ha carry
  have shr := movesDown_of_lt w ha false
  have rotRight := movesDown_of_lt w ha carry
  have sar := movesDown_of_lt w ha (decide (w.signBit ≤ w.truncate a))
  constructor
  case neg =>
    simp only [apply]
    rw [below_eq_residue]
    simp only [decide_eq_true_iff]
    omega
  case not =>
    have space : (2 : Int) ^ w.bits = w.size := by
      rw [size]
      norm_cast
    have range : (w.size - 1 - w.truncate a : Int) % w.size = w.size - 1 - w.truncate a :=
      Int.emod_eq_of_lt (by omega) (by omega)
    simp only [apply, residue, space, range, Width.mask]
    congr 1
    omega
  case inc =>
    simp only [apply]
    rw [above_eq_residue]
    rw [decide_eq_true_iff, ← size]
    omega
  case dec =>
    simp only [apply]
    rw [below_eq_residue]
    simp only [decide_eq_true_iff]
    omega
  case shl => exact shl
  case shr => exact shr
  case sar =>
    rw [w.testBit_top ha]
    exact sar
  case floor => exact signed_sar w ha
  case rotLeft => exact rotLeft
  case rotRight => exact rotRight
  case lt => exact fun op => size ▸ lt op

end UnaryOp

/-- The product of two words fits into a long. -/
theorem wideProduct_eq_mul (a b : Nat) :
    wideProduct a b = ⟨(a % 2 ^ 12) * (b % 2 ^ 12), some false⟩ := by
  have ha := toWord_lt a
  have hb := toWord_lt b
  have hp : toWord a * toWord b < Width.long.size :=
    (Nat.mul_lt_mul'' ha hb).trans_le (by decide)
  exact AluResult.above_of_lt hp

/-- The arithmetic is exact modulo the width, whatever numbers the operands come from. -/
theorem arithmetic_is_exact (w : Width) (a b : Nat) (carry : Bool) :
    BinaryOp.Exact w (a % 2 ^ w.bits) (b % 2 ^ w.bits) (fun op => op.apply w a b) ∧
      UnaryOp.Exact w (a % 2 ^ w.bits) carry (fun op => op.apply w a carry) ∧
      wideProduct a b = ⟨(a % 2 ^ 12) * (b % 2 ^ 12), some false⟩ ∧
      (wideProduct a b).value < 2 ^ 24 ∧
      (-2 ^ (w.bits - 1) ≤ w.signed a ∧ w.signed a < 2 ^ (w.bits - 1) ∧
        w.signed a % 2 ^ w.bits = (a % 2 ^ w.bits : Nat)) :=
  ⟨BinaryOp.exact_apply w a b, UnaryOp.exact_apply w a carry, wideProduct_eq_mul a b,
    AluResult.above_value_lt .long _, w.signed_range a⟩

end TwelveBit
