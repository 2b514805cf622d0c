/-!
Words and longs. A word has 12 bits; a long has 24 and is stored as two words, the high one
first. Addresses are longs. All three are natural numbers, so a value that comes from outside
may be too large: every operation says where it drops the extra bits.
-/
namespace TwelveBit

inductive Width where
  | word | long
  deriving DecidableEq, Repr

namespace Width

def bits : Width → Nat
  | word => 12
  | long => 24

def size : Width → Nat
  | word => 0x1000
  | long => 0x1000000

def mask (w : Width) : Nat := w.size - 1

def signBit (w : Width) : Nat := w.size / 2

def truncate (w : Width) (v : Nat) : Nat := v % w.size

def signed (w : Width) (v : Nat) : Int :=
  if v % w.size < w.signBit then (v % w.size : Nat) else (v % w.size : Nat) - (w.size : Int)

theorem size_pos (w : Width) : 0 < w.size := by cases w <;> decide

theorem truncate_lt (w : Width) (v : Nat) : w.truncate v < w.size :=
  Nat.mod_lt v w.size_pos

end Width

def toWord (v : Nat) : Nat := v % 0x1000

def toLong (v : Nat) : Nat := v % 0x1000000

def back (a k : Nat) : Nat := toLong (0x1000000 - k % 0x1000000 + a)

def join (high low : Nat) : Nat := toWord high * 0x1000 + toWord low

def high (v : Nat) : Nat := toWord (v / 0x1000)

def low (v : Nat) : Nat := toWord v

theorem toWord_lt (v : Nat) : toWord v < 0x1000 := Nat.mod_lt v (by decide)

theorem toLong_lt (v : Nat) : toLong v < 0x1000000 := Nat.mod_lt v (by decide)

theorem back_lt (a k : Nat) : back a k < 0x1000000 := toLong_lt _

theorem toWord_of_lt {v : Nat} (h : v < 0x1000) : toWord v = v := Nat.mod_eq_of_lt h

theorem toLong_of_lt {v : Nat} (h : v < 0x1000000) : toLong v = v := Nat.mod_eq_of_lt h

theorem join_lt (h l : Nat) : join h l < 0x1000000 := by
  have := toWord_lt h
  have := toWord_lt l
  simp only [join]
  omega

theorem join_split (v : Nat) : join (high v) (low v) = toLong v := by
  simp only [join, high, low, toWord, toLong]
  omega

theorem high_join (h l : Nat) : high (join h l) = toWord h := by
  simp only [join, high, toWord]
  omega

theorem low_join (h l : Nat) : low (join h l) = toWord l := by
  simp only [join, low, toWord]
  omega

end TwelveBit
