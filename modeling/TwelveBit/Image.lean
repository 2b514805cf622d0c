import TwelveBit.Fault
/-!
Program images: a row of blocks, each with an offset into program memory, a count of words and
the words. Offset and count have four bytes and a sign, words have two bytes; the lowest byte
comes first.
-/
namespace TwelveBit

structure Block where
  offset : Int
  words : List Nat
  deriving DecidableEq, Repr

namespace Image

def natOfBytes : List UInt8 → Nat
  | [] => 0
  | b :: bs => b.toNat + 256 * natOfBytes bs

def bytesOfNat : Nat → Nat → List UInt8
  | 0, _ => []
  | len + 1, n => UInt8.ofNat n :: bytesOfNat len (n / 256)

def intOfBytes (bs : List UInt8) : Int :=
  if natOfBytes bs < 0x80000000 then natOfBytes bs else natOfBytes bs - 0x100000000

def bytesOfInt (i : Int) : List UInt8 := bytesOfNat 4 (i % 0x100000000).toNat

def takeWords? : Nat → List UInt8 → Option (List Nat × List UInt8)
  | 0, bytes => some ([], bytes)
  | n + 1, b :: c :: bytes =>
    (takeWords? n bytes).map fun (ws, rest) => (natOfBytes [b, c] :: ws, rest)
  | _ + 1, _ => none

theorem length_of_takeWords? {n : Nat} {bytes rest : List UInt8} {ws : List Nat}
    (h : takeWords? n bytes = some (ws, rest)) : rest.length + 2 * n = bytes.length := by
  fun_induction takeWords? n bytes generalizing ws with
  | case1 => simp_all
  | case2 n b c bytes ih =>
    obtain ⟨⟨vs, r⟩, hr, he⟩ := Option.map_eq_some_iff.1 h
    cases he
    have := ih hr
    simp only [List.length_cons]
    omega
  | case3 => simp at h

def blocksFrom (position : Nat) (bytes : List UInt8) : Except LoadError (List Block) :=
  match bytes with
  | [] => .ok []
  | a :: b :: c :: d :: e :: f :: g :: h :: tail =>
    let count := intOfBytes [e, f, g, h]
    if count < 0 then .error (.negativeCount position count)
    else
      match taken : takeWords? count.toNat tail with
      | none => .error (.truncated (position + 8))
      | some (ws, rest) =>
        have : rest.length < tail.length + 8 := by
          have := length_of_takeWords? taken
          omega
        (blocksFrom (position + 8 + 2 * count.toNat) rest).map (⟨intOfBytes [a, b, c, d], ws⟩ :: ·)
  | _ => .error (.truncated position)
termination_by bytes.length

def parse (bytes : List UInt8) : Except LoadError (List Block) := blocksFrom 0 bytes

def blockBytes (b : Block) : List UInt8 :=
  bytesOfInt b.offset ++ bytesOfInt b.words.length ++ b.words.flatMap (bytesOfNat 2)

def toBytes (blocks : List Block) : List UInt8 := blocks.flatMap blockBytes

end Image
end TwelveBit
