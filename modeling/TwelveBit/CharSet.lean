/-!
Sets of characters as rows of intervals of code points, with the operations of a Boolean algebra.
-/
namespace TwelveBit

structure Interval where
  low : Nat
  high : Nat
  low_le_high : low ≤ high
  deriving DecidableEq, Repr

namespace Interval

def contains (i : Interval) (n : Nat) : Bool := i.low ≤ n && n ≤ i.high

def between (m n : Nat) : Interval := ⟨min m n, max m n, by omega⟩

def point (n : Nat) : Interval := ⟨n, n, Nat.le_refl n⟩

def without (i j : Interval) : List Interval :=
  have := i.low_le_high
  (if h : i.low < j.low then [⟨i.low, min i.high (j.low - 1), by omega⟩] else []) ++
    (if h : j.high < i.high then [⟨max i.low (j.high + 1), i.high, by omega⟩] else [])

theorem any_without (i j : Interval) (n : Nat) :
    (i.without j).any (·.contains n) = (i.contains n && !j.contains n) := by
  have hi := i.low_le_high
  have hj := j.low_le_high
  rw [Bool.eq_iff_iff]
  by_cases h : i.low < j.low <;> by_cases h' : j.high < i.high <;>
    simp [without, contains, h, h'] <;> omega

end Interval

structure CharSet where
  intervals : List Interval := []
  deriving DecidableEq, Repr

namespace CharSet

def contains (s : CharSet) (n : Nat) : Bool := s.intervals.any (·.contains n)

def place (i : Interval) : List Interval → List Interval
  | [] => [i]
  | j :: js =>
    if i.high + 1 < j.low then i :: j :: js
    else if j.high + 1 < i.low then j :: place i js
    else
      place ⟨min i.low j.low, max i.high j.high, by
        have := i.low_le_high; have := j.low_le_high; omega⟩ js

theorem any_place (i : Interval) (js : List Interval) (n : Nat) :
    (place i js).any (·.contains n) = (i.contains n || js.any (·.contains n)) := by
  induction js generalizing i with
  | nil => rfl
  | cons j js ih =>
    have hi := i.low_le_high
    have hj := j.low_le_high
    rw [place]
    split
    · rfl
    · split
      · simp only [List.any_cons, ih]
        exact Bool.or_left_comm _ _ _
      · rw [ih, List.any_cons, ← Bool.or_assoc]
        congr 1
        rw [Bool.eq_iff_iff]
        simp [Interval.contains]
        omega

def insert (i : Interval) (s : CharSet) : CharSet := ⟨place i s.intervals⟩

def ofList (is : List Interval) : CharSet := is.foldl (fun s i => s.insert i) {}

def union (s t : CharSet) : CharSet := t.intervals.foldl (fun s i => s.insert i) s

def remove (i : Interval) (s : CharSet) : CharSet := ⟨s.intervals.flatMap (·.without i)⟩

def diff (s t : CharSet) : CharSet := t.intervals.foldl (fun s i => s.remove i) s

def all : CharSet := ⟨[.between 0 0x10FFFF]⟩

def compl (s : CharSet) : CharSet := all.diff s

def inter (s t : CharSet) : CharSet := s.diff t.compl

def symmDiff (s t : CharSet) : CharSet := (s.diff t).union (t.diff s)

def point (n : Nat) : CharSet := ⟨[.point n]⟩

def isAscii (s : CharSet) : Bool := s.intervals.all (·.high < 0x80)

@[simp] theorem contains_insert (i : Interval) (s : CharSet) (n : Nat) :
    (s.insert i).contains n = (i.contains n || s.contains n) := any_place i s.intervals n

@[simp] theorem contains_remove (i : Interval) (s : CharSet) (n : Nat) :
    (s.remove i).contains n = (s.contains n && !i.contains n) := by
  simp only [remove, contains, List.any_flatMap, Interval.any_without]
  induction s.intervals with
  | nil => rfl
  | cons j js ih => simp only [List.any_cons, ih, Bool.and_or_distrib_right]

@[simp] theorem contains_union (s t : CharSet) (n : Nat) :
    (s.union t).contains n = (s.contains n || t.contains n) := by
  obtain ⟨is⟩ := t
  simp only [union]
  induction is generalizing s with
  | nil => simp [contains]
  | cons i is ih =>
    rw [List.foldl_cons, ih, contains_insert, Bool.or_comm (i.contains n), Bool.or_assoc]
    rfl

@[simp] theorem contains_diff (s t : CharSet) (n : Nat) :
    (s.diff t).contains n = (s.contains n && !t.contains n) := by
  obtain ⟨is⟩ := t
  simp only [diff]
  induction is generalizing s with
  | nil => simp [contains]
  | cons i is ih =>
    rw [List.foldl_cons, ih, contains_remove, Bool.and_assoc, ← Bool.not_or]
    rfl

@[simp] theorem contains_compl (s : CharSet) (n : Nat) :
    s.compl.contains n = (n ≤ 0x10FFFF && !s.contains n) := by
  rw [compl, contains_diff]
  simp [all, contains, Interval.contains, Interval.between]

def bothCases (s : CharSet) : CharSet :=
  let lower := s.inter ⟨[.between 0x61 0x7A]⟩
  let upper := s.inter ⟨[.between 0x41 0x5A]⟩
  let raised := lower.intervals.map fun i => Interval.between (i.low - 32) (i.high - 32)
  let lowered := upper.intervals.map fun i => Interval.between (i.low + 32) (i.high + 32)
  (s.union (ofList raised)).union (ofList lowered)

end CharSet
end TwelveBit
