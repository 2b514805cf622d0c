/-!
Hexadecimal text: lower case digits, the most significant first. `padded` is the form in which
addresses and operands are written, and `value?` reads digits of either case back.
-/
namespace TwelveBit.Hex

def digits (n : Nat) : List Char := Nat.toDigits 16 n

def padded (width n : Nat) : List Char := (digits n).leftpad width '0'

def literal (width n : Nat) : String := String.ofList ('0' :: 'x' :: padded width n)

def digitValue? (c : Char) : Option Nat :=
  if '0' ≤ c ∧ c ≤ '9' then some (c.toNat - '0'.toNat)
  else if 'a' ≤ c ∧ c ≤ 'f' then some (c.toNat - 'a'.toNat + 10)
  else if 'A' ≤ c ∧ c ≤ 'F' then some (c.toNat - 'A'.toNat + 10)
  else none

def valueFrom? : Nat → List Char → Option Nat
  | n, [] => some n
  | n, c :: cs =>
    match digitValue? c with
    | some d => valueFrom? (16 * n + d) cs
    | none => none

def value? : List Char → Option Nat
  | [] => none
  | cs => valueFrom? 0 cs

theorem digitValue?_digitChar {n : Nat} (h : n < 16) : digitValue? n.digitChar = some n := by
  revert n
  decide

theorem valueFrom?_append (n : Nat) (xs ys : List Char) :
    valueFrom? n (xs ++ ys) = (valueFrom? n xs).bind (valueFrom? · ys) := by
  induction xs generalizing n with
  | nil => rfl
  | cons c cs ih =>
    simp only [List.cons_append, valueFrom?]
    cases digitValue? c with
    | none => rfl
    | some d => exact ih _

theorem valueFrom?_digits (n : Nat) : valueFrom? 0 (digits n) = some n := by
  induction n using Nat.strongRecOn with
  | _ n ih =>
    rw [digits, Nat.toDigits_eq_if (by decide)]
    split
    · next h => simp [valueFrom?, digitValue?_digitChar h]
    · next h =>
      have hd := ih (n / 16) (by omega)
      rw [digits] at hd
      rw [valueFrom?_append, hd]
      have := digitValue?_digitChar (Nat.mod_lt n (by decide : 0 < 16))
      simp only [Option.bind_some, valueFrom?, this, Option.some.injEq]
      omega

theorem valueFrom?_zeros (k : Nat) (cs : List Char) :
    valueFrom? 0 (List.replicate k '0' ++ cs) = valueFrom? 0 cs := by
  induction k with
  | zero => rfl
  | succ k ih => exact ih

/-- What is written reads back, however wide the field. -/
theorem valueFrom?_padded (width n : Nat) : valueFrom? 0 (padded width n) = some n := by
  rw [padded, List.leftpad, valueFrom?_zeros, valueFrom?_digits]

end TwelveBit.Hex
