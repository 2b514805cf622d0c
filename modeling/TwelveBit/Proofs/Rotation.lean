import Mathlib.Logic.Function.Iterate
import TwelveBit.Proofs.ExactArithmetic
/-!
Rotations. A value with the carry behind its top bit is a ring of bits, one more than the width
has, and a rotation turns the ring by one place. On a long, shifts and rotations go word by word:
what the first word leaves in the carry comes into the other one.
-/
namespace TwelveBit

/-- The bits of a value with the carry behind the top one, and round again from there. -/
def Width.ringBit (w : Width) (p : Nat × Bool) (i : Nat) : Bool :=
  if i % (w.bits + 1) = w.bits then p.2 else p.1.testBit (i % (w.bits + 1))

def UnaryOp.turn (op : UnaryOp) (w : Width) (p : Nat × Bool) : Nat × Bool :=
  ((op.apply w p.1 p.2).value, (op.apply w p.1 p.2).carry.getD p.2)

structure Width.Turns (w : Width) (k : Nat) (f : Nat × Bool → Nat × Bool) : Prop where
  lt : ∀ p, p.1 < 2 ^ w.bits → (f p).1 < 2 ^ w.bits
  ringBit : ∀ p, p.1 < 2 ^ w.bits → ∀ i, w.ringBit (f p) i = w.ringBit p (i + k)

namespace Width
variable {w : Width} {p q : Nat × Bool} {i : Nat}

theorem ringBit_of_lt (p : Nat × Bool) (hi : i < w.bits) : w.ringBit p i = p.1.testBit i := by
  rw [ringBit, Nat.mod_eq_of_lt (by omega), if_neg hi.ne]

theorem ringBit_bits (w : Width) (p : Nat × Bool) : w.ringBit p w.bits = p.2 := by
  rw [ringBit, Nat.mod_eq_of_lt (Nat.lt_succ_self _), if_pos rfl]

theorem ringBit_mod (w : Width) (p : Nat × Bool) (i : Nat) :
    w.ringBit p (i % (w.bits + 1)) = w.ringBit p i := by
  rw [ringBit, Nat.mod_mod, ringBit]

theorem ringBit_add_mul (w : Width) (p : Nat × Bool) (i n : Nat) :
    w.ringBit p (i + (w.bits + 1) * n) = w.ringBit p i := by
  rw [← ringBit_mod, Nat.add_mul_mod_self_left, ringBit_mod]

theorem eq_of_testBit {u v : Nat} (hu : u < 2 ^ w.bits) (hv : v < 2 ^ w.bits)
    (h : ∀ i < w.bits, u.testBit i = v.testBit i) : u = v := by
  refine Nat.eq_of_testBit_eq fun i => ?_
  by_cases hi : i < w.bits
  · exact h i hi
  · have high : 2 ^ w.bits ≤ 2 ^ i := Nat.pow_le_pow_right (by decide) (Nat.not_lt.1 hi)
    rw [Nat.testBit_lt_two_pow (hu.trans_le high), Nat.testBit_lt_two_pow (hv.trans_le high)]

theorem eq_of_ringBit (hp : p.1 < 2 ^ w.bits) (hq : q.1 < 2 ^ w.bits)
    (h : ∀ i, w.ringBit p i = w.ringBit q i) : p = q := by
  refine Prod.ext (eq_of_testBit hp hq fun i hi => ?_) ?_
  · rw [← ringBit_of_lt p hi, ← ringBit_of_lt q hi, h]
  · rw [← ringBit_bits w p, ← ringBit_bits w q, h]

namespace Turns
variable {j k : Nat} {f g : Nat × Bool → Nat × Bool}

theorem id : w.Turns 0 id := ⟨fun _ hp => hp, fun _ _ _ => rfl⟩

theorem comp (hf : w.Turns j f) (hg : w.Turns k g) : w.Turns (j + k) (f ∘ g) := by
  constructor
  case lt => exact fun p hp => hf.lt _ (hg.lt p hp)
  case ringBit =>
    intro p hp i
    rw [Function.comp_apply, hf.ringBit _ (hg.lt p hp), hg.ringBit p hp, Nat.add_assoc]

theorem iterate (hf : w.Turns k f) (n : Nat) : w.Turns (n * k) f^[n] := by
  induction n with
  | zero =>
    rw [Nat.zero_mul]
    exact Turns.id
  | succ n ih =>
    rw [Function.iterate_succ, Nat.succ_mul]
    exact ih.comp hf

/-- A ring that has gone all the way round is as it was. -/
theorem eq_self (hf : w.Turns k f) (hk : w.bits + 1 ∣ k) (hp : p.1 < 2 ^ w.bits) : f p = p := by
  obtain ⟨n, rfl⟩ := hk
  refine eq_of_ringBit (hf.lt p hp) hp fun i => ?_
  rw [hf.ringBit p hp, ringBit_add_mul]

/-- It is enough to look at each place of the ring once. -/
theorem of_le (lt : ∀ p, p.1 < 2 ^ w.bits → (f p).1 < 2 ^ w.bits)
    (h : ∀ p, p.1 < 2 ^ w.bits → ∀ i ≤ w.bits, w.ringBit (f p) i = w.ringBit p (i + k)) :
    w.Turns k f := by
  refine ⟨lt, fun p hp i => ?_⟩
  have hi : i % (w.bits + 1) ≤ w.bits := Nat.le_of_lt_succ (Nat.mod_lt _ (Nat.succ_pos _))
  rw [← ringBit_mod, h p hp _ hi, ← ringBit_mod, Nat.mod_add_mod, ringBit_mod]

/-- A turn by one place to the left is one to the right that goes all but one place round. -/
theorem rotLeft (w : Width) : w.Turns w.bits (UnaryOp.rotLeft.turn w) := by
  have moves (p : Nat × Bool) (hp : p.1 < 2 ^ w.bits) :
      (UnaryOp.rotLeft.apply w p.1 p.2).MovesUp w p.1 p.2 := by
    have exact := (UnaryOp.exact_apply w p.1 p.2).rotLeft
    rwa [Nat.mod_eq_of_lt hp] at exact
  refine of_le (fun p hp => (moves p hp).lt) fun p hp i hi => ?_
  cases i with
  | zero =>
    have pos : 0 < w.bits := by cases w <;> decide
    rw [ringBit_of_lt _ pos, Nat.zero_add, ringBit_bits]
    exact (moves p hp).bottom
  | succ i =>
    have around : i + 1 + w.bits = i + (w.bits + 1) * 1 := by omega
    rw [around, ringBit_add_mul, ringBit_of_lt p hi]
    obtain hlt | top := Nat.lt_or_eq_of_le hi
    · rw [ringBit_of_lt _ hlt]
      exact (moves p hp).up i hlt
    · have out : (UnaryOp.rotLeft.apply w p.1 p.2).carry = some (p.1.testBit i) := by
        rw [(moves p hp).carry, ← top, Nat.add_sub_cancel]
      rw [top, ringBit_bits, UnaryOp.turn, out, Option.getD_some]

theorem rotRight (w : Width) : w.Turns 1 (UnaryOp.rotRight.turn w) := by
  have moves (p : Nat × Bool) (hp : p.1 < 2 ^ w.bits) :
      (UnaryOp.rotRight.apply w p.1 p.2).MovesDown w p.1 p.2 := by
    have exact := (UnaryOp.exact_apply w p.1 p.2).rotRight
    rwa [Nat.mod_eq_of_lt hp] at exact
  refine of_le (fun p hp => (moves p hp).lt) fun p hp i hi => ?_
  obtain hlt | rfl := Nat.lt_or_eq_of_le hi
  · rw [ringBit_of_lt _ hlt]
    obtain hlt' | top := Nat.lt_or_eq_of_le (Nat.succ_le_of_lt hlt)
    · rw [ringBit_of_lt p hlt']
      exact (moves p hp).down i hlt'
    · have hi' : i = w.bits - 1 := by omega
      rw [show i + 1 = w.bits from top, ringBit_bits, hi']
      exact (moves p hp).top
  · have around : w.bits + 1 = 0 + (w.bits + 1) * 1 := by omega
    have pos : 0 < w.bits := by cases w <;> decide
    rw [ringBit_bits, around, ringBit_add_mul, ringBit_of_lt p pos, UnaryOp.turn,
      (moves p hp).carry, Option.getD_some]

end Turns
end Width

theorem testBit_join (h l i : Nat) :
    (join h l).testBit i =
      if i < 12 then (toWord l).testBit i else (toWord h).testBit (i - 12) := by
  have shape : join h l = 2 ^ 12 * toWord h + toWord l := by
    rw [Nat.mul_comm]
    rfl
  rw [shape, Nat.testBit_two_pow_mul_add _ (toWord_lt l)]

namespace AluResult
variable {w : Width} {a h l : Nat} {b c : Bool} {r s : AluResult}

theorem ext_testBit (hr : r.value < 2 ^ w.bits) (hs : s.value < 2 ^ w.bits)
    (value : ∀ i < w.bits, r.value.testBit i = s.value.testBit i) (carry : r.carry = s.carry) :
    r = s := by
  have same := Width.eq_of_testBit hr hs value
  cases r
  cases s
  cases same
  cases carry
  rfl

/-- Where every bit comes from is all there is to know of a result. -/
theorem MovesUp.eq (hr : r.MovesUp w a b) (hs : s.MovesUp w a b) : r = s := by
  refine ext_testBit hr.lt hs.lt (fun i hi => ?_) (hr.carry.trans hs.carry.symm)
  cases i with
  | zero => rw [hr.bottom, hs.bottom]
  | succ i => rw [hr.up i hi, hs.up i hi]

theorem MovesDown.eq (hr : r.MovesDown w a b) (hs : s.MovesDown w a b) : r = s := by
  refine ext_testBit hr.lt hs.lt (fun i hi => ?_) (hr.carry.trans hs.carry.symm)
  obtain hlt | top := Nat.lt_or_eq_of_le (Nat.succ_le_of_lt hi)
  · rw [hr.down i hlt, hs.down i hlt]
  · have hi' : i = w.bits - 1 := by omega
    rw [hi', hr.top, hs.top]

/-- The bit between the words goes through the carry. -/
theorem MovesUp.join (low : r.MovesUp .word (toWord l) b)
    (high : s.MovesUp .word (toWord h) ((toWord l).testBit 11)) :
    MovesUp .long (join h l) b ⟨TwelveBit.join s.value r.value, s.carry⟩ := by
  have hr : toWord r.value = r.value := toWord_of_lt low.lt
  have hs : toWord s.value = s.value := toWord_of_lt high.lt
  constructor
  case lt => exact join_lt _ _
  case bottom =>
    rw [testBit_join, if_pos (by decide), hr]
    exact low.bottom
  case up =>
    intro i hi
    have hi' : i + 1 < 24 := hi
    rw [testBit_join, testBit_join, hr, hs]
    obtain hlt | hmid | hgt := Nat.lt_trichotomy (i + 1) 12
    · rw [if_pos hlt, if_pos (by omega)]
      exact low.up i hlt
    -- the bit between the two words goes up by way of the carry
    · obtain rfl : i = 11 := by omega
      exact high.bottom
    · have hsub : i + 1 - 12 = i - 12 + 1 := by omega
      rw [if_neg (by omega), if_neg (by omega), hsub]
      exact high.up (i - 12) (by simp only [Width.bits]; omega)
  case carry =>
    rw [testBit_join]
    exact high.carry

theorem MovesDown.join (high : r.MovesDown .word (toWord h) b)
    (low : s.MovesDown .word (toWord l) ((toWord h).testBit 0)) :
    MovesDown .long (join h l) b ⟨TwelveBit.join r.value s.value, s.carry⟩ := by
  have hr : toWord r.value = r.value := toWord_of_lt high.lt
  have hs : toWord s.value = s.value := toWord_of_lt low.lt
  constructor
  case lt => exact join_lt _ _
  case top =>
    rw [testBit_join, hr]
    exact high.top
  case down =>
    intro i hi
    have hi' : i + 1 < 24 := hi
    rw [testBit_join, testBit_join, hr, hs]
    obtain hlt | hmid | hgt := Nat.lt_trichotomy (i + 1) 12
    · rw [if_pos (by omega), if_pos hlt]
      exact low.down i hlt
    · obtain rfl : i = 11 := by omega
      exact low.top
    · have hsub : i + 1 - 12 = i - 12 + 1 := by omega
      rw [if_neg (by omega), if_neg (by omega), hsub]
      exact high.down (i - 12) (by simp only [Width.bits]; omega)
  case carry =>
    rw [testBit_join, if_pos (by decide)]
    exact low.carry

end AluResult

namespace UnaryOp
variable {op : UnaryOp} {h l : Nat} {b c : Bool}

def turnLong (op : UnaryOp) (h l : Nat) (c : Bool) : Nat × Nat × Bool :=
  let p := op.turn .long (join h l, c)
  (high p.1, low p.1, p.2)

def turnUpwards (op : UnaryOp) (h l : Nat) (c : Bool) : Nat × Nat × Bool :=
  let p := op.turn .word (l, c)
  let q := UnaryOp.rotLeft.turn .word (h, p.2)
  (q.1, p.1, q.2)

def turnDownwards (op : UnaryOp) (h l : Nat) (c : Bool) : Nat × Nat × Bool :=
  let p := op.turn .word (h, c)
  let q := UnaryOp.rotRight.turn .word (l, p.2)
  (p.1, q.1, q.2)

theorem turnLong_of_apply {r s : AluResult} (hr : r.value < 0x1000) (hs : s.value < 0x1000)
    {carry : Option Bool} (happly : op.apply .long (join h l) c = ⟨join r.value s.value, carry⟩) :
    op.turnLong h l c = (r.value, s.value, carry.getD c) := by
  simp only [turnLong, turn, happly, high_join, low_join, toWord_of_lt hr, toWord_of_lt hs]

theorem turnLong_eq_turnUpwards (word : (op.apply .word l c).MovesUp .word (toWord l) b)
    (long : (op.apply .long (join h l) c).MovesUp .long (join h l) b) :
    op.turnLong h l c = op.turnUpwards h l c := by
  have second := (exact_apply .word h ((toWord l).testBit 11)).rotLeft
  have carry : (op.turn .word (l, c)).2 = (toWord l).testBit 11 := by
    rw [turn, word.carry]
    rfl
  rw [turnLong_of_apply second.lt word.lt (long.eq (word.join second)), turnUpwards]
  simp only [carry]
  rw [turn, turn, second.carry]
  rfl

theorem turnLong_eq_turnDownwards (word : (op.apply .word h c).MovesDown .word (toWord h) b)
    (long : (op.apply .long (join h l) c).MovesDown .long (join h l) b) :
    op.turnLong h l c = op.turnDownwards h l c := by
  have second := (exact_apply .word l ((toWord h).testBit 0)).rotRight
  have carry : (op.turn .word (h, c)).2 = (toWord h).testBit 0 := by
    rw [turn, word.carry]
    rfl
  rw [turnLong_of_apply word.lt second.lt (long.eq (word.join second)), turnDownwards]
  simp only [carry]
  rw [turn, turn, second.carry]
  rfl

/-- What comes in at the bottom of a long comes in at the bottom of its low word, and so on. -/
theorem long_words (h l : Nat) (c : Bool) :
    shl.turnLong h l c = shl.turnUpwards h l c ∧
      rotLeft.turnLong h l c = rotLeft.turnUpwards h l c ∧
      shr.turnLong h l c = shr.turnDownwards h l c ∧
      sar.turnLong h l c = sar.turnDownwards h l c ∧
      rotRight.turnLong h l c = rotRight.turnDownwards h l c := by
  have low := exact_apply .word l c
  have high := exact_apply .word h c
  have long := exact_apply .long (join h l) c
  have fits : join h l % 2 ^ Width.long.bits = join h l := Nat.mod_eq_of_lt (join_lt h l)
  rw [fits] at long
  have sign : (join h l).testBit (Width.long.bits - 1) =
      (toWord h).testBit (Width.word.bits - 1) := testBit_join h l 23
  exact ⟨turnLong_eq_turnUpwards low.shl long.shl,
    turnLong_eq_turnUpwards low.rotLeft long.rotLeft,
    turnLong_eq_turnDownwards high.shr long.shr,
    turnLong_eq_turnDownwards high.sar (sign ▸ long.sar),
    turnLong_eq_turnDownwards high.rotRight long.rotRight⟩

end UnaryOp

/-- The rotations undo each other, and as many turns as there are bits, with the carry, change
nothing. Long shifts and rotations are those of the two words, chained by the carry. -/
theorem rotations_turn_a_ring (w : Width) {v : Nat} (hv : v < 2 ^ w.bits) (c : Bool) :
    let left := UnaryOp.rotLeft.turn w
    let right := UnaryOp.rotRight.turn w
    right (left (v, c)) = (v, c) ∧ left (right (v, c)) = (v, c) ∧
      left^[w.bits + 1] (v, c) = (v, c) ∧ right^[w.bits + 1] (v, c) = (v, c) ∧
      ∀ h l, UnaryOp.shl.turnLong h l c = UnaryOp.shl.turnUpwards h l c ∧
        UnaryOp.rotLeft.turnLong h l c = UnaryOp.rotLeft.turnUpwards h l c ∧
        UnaryOp.shr.turnLong h l c = UnaryOp.shr.turnDownwards h l c ∧
        UnaryOp.sar.turnLong h l c = UnaryOp.sar.turnDownwards h l c ∧
        UnaryOp.rotRight.turnLong h l c = UnaryOp.rotRight.turnDownwards h l c := by
  intro left right
  have turnsLeft : w.Turns w.bits left := .rotLeft w
  have turnsRight : w.Turns 1 right := .rotRight w
  refine ⟨?_, ?_, ?_, ?_, fun h l => UnaryOp.long_words h l c⟩
  · exact (turnsRight.comp turnsLeft).eq_self (Dvd.intro 1 (by omega)) hv
  · exact (turnsLeft.comp turnsRight).eq_self (Dvd.intro 1 (by omega)) hv
  · exact (turnsLeft.iterate (w.bits + 1)).eq_self (Dvd.intro _ rfl) hv
  · exact (turnsRight.iterate (w.bits + 1)).eq_self (Dvd.intro _ rfl) hv

/-- A long with its top and its bottom bit set, and no carry, is the same again after 25 turns; a
shift takes a bit from the low word into the high one. -/
theorem outer_bits_come_round :
    let left := UnaryOp.rotLeft.turn .long
    left (0x800001, false) = (2, true) ∧
      UnaryOp.rotRight.turn .long (2, true) = (0x800001, false) ∧
      left^[25] (0x800001, false) = (0x800001, false) ∧
      UnaryOp.shl.turnLong 0x400 0x800 false = (0x801, 0, false) := by
  intro left
  have turned : left (0x800001, false) = (2, true) := by decide
  obtain ⟨back, -, round, -, words⟩ := rotations_turn_a_ring .long (v := 0x800001) (by decide) false
  obtain ⟨chained, -⟩ := words 0x400 0x800
  exact ⟨turned, turned ▸ back, round, chained.trans (by decide)⟩

end TwelveBit
