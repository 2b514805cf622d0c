import Mathlib.Logic.ExistsUnique
import TwelveBit.Image
/-!
The format of images. A row of bytes that can be read is exactly what its blocks are written as,
and blocks that fit their headers can be read back: blocks and images stand for each other.
-/
namespace TwelveBit

/-- The block can be written down: its offset fits into four bytes, its words into two bytes each,
and there are not too many of them for a count with a sign. -/
structure Block.Storable (b : Block) : Prop where
  offset_ge : -0x80000000 ≤ b.offset
  offset_lt : b.offset < 0x80000000
  words_lt : ∀ w ∈ b.words, w < 0x10000
  length_lt : b.words.length < 0x80000000

instance (b : Block) : Decidable b.Storable :=
  decidable_of_iff (-0x80000000 ≤ b.offset ∧ b.offset < 0x80000000 ∧
      (∀ w ∈ b.words, w < 0x10000) ∧ b.words.length < 0x80000000)
    ⟨fun ⟨ge, lt, words, length⟩ => ⟨ge, lt, words, length⟩,
      fun ⟨ge, lt, words, length⟩ => ⟨ge, lt, words, length⟩⟩

namespace Image

theorem natOfBytes_lt (bs : List UInt8) : natOfBytes bs < Nat.pow 256 bs.length := by
  induction bs with
  | nil => exact Nat.one_pos
  | cons b bs ih =>
    have hb := b.toNat_lt
    have hp : Nat.pow 256 (b :: bs).length = Nat.pow 256 bs.length * 256 := rfl
    simp only [natOfBytes]
    omega

theorem natOfBytes_bytesOfNat (len n : Nat) :
    natOfBytes (bytesOfNat len n) = n % Nat.pow 256 len := by
  induction len generalizing n with
  | zero => exact (Nat.mod_one n).symm
  | succ len ih =>
    have hp : Nat.pow 256 (len + 1) = 256 * Nat.pow 256 len := Nat.pow_succ'
    have hd : (UInt8.ofNat n).toNat = n % 256 := UInt8.toNat_ofNat'
    rw [bytesOfNat, natOfBytes, ih, hd, hp, Nat.mod_mul]

theorem bytesOfNat_natOfBytes (bs : List UInt8) : bytesOfNat bs.length (natOfBytes bs) = bs := by
  induction bs with
  | nil => rfl
  | cons b bs ih =>
    have hb := b.toNat_lt
    have hlow : UInt8.ofNat (b.toNat + 256 * natOfBytes bs) = b := by
      apply UInt8.toNat_inj.1
      rw [UInt8.toNat_ofNat']
      omega
    have hrest : (b.toNat + 256 * natOfBytes bs) / 256 = natOfBytes bs := by omega
    simp only [List.length_cons, natOfBytes, bytesOfNat, hlow, hrest, ih]

theorem intOfBytes_bytesOfInt {i : Int} (hl : -0x80000000 ≤ i) (hu : i < 0x80000000) :
    intOfBytes (bytesOfInt i) = i := by
  have hn : natOfBytes (bytesOfInt i) = (i % 0x100000000).toNat := by
    have hs : Nat.pow 256 4 = 0x100000000 := rfl
    rw [bytesOfInt, natOfBytes_bytesOfNat, hs]
    omega
  simp only [intOfBytes, hn]
  split <;> omega

theorem intOfBytes_range (bs : List UInt8) (h : bs.length = 4) :
    -0x80000000 ≤ intOfBytes bs ∧ intOfBytes bs < 0x80000000 := by
  have hb := natOfBytes_lt bs
  have hs : Nat.pow 256 4 = 0x100000000 := rfl
  rw [h, hs] at hb
  simp only [intOfBytes]
  split <;> omega

theorem bytesOfInt_intOfBytes (bs : List UInt8) (h : bs.length = 4) :
    bytesOfInt (intOfBytes bs) = bs := by
  have hb := natOfBytes_lt bs
  have hs : Nat.pow 256 4 = 0x100000000 := rfl
  rw [h, hs] at hb
  have hn : (intOfBytes bs % 0x100000000).toNat = natOfBytes bs := by
    simp only [intOfBytes]
    split <;> omega
  rw [bytesOfInt, hn, ← h]
  exact bytesOfNat_natOfBytes bs

theorem takeWords?_append {ws : List Nat} (h : ∀ w ∈ ws, w < 0x10000) (rest : List UInt8) :
    takeWords? ws.length (ws.flatMap (bytesOfNat 2) ++ rest) = some (ws, rest) := by
  induction ws with
  | nil => rfl
  | cons w ws ih =>
    have hw : natOfBytes (bytesOfNat 2 w) = w := by
      have hs : Nat.pow 256 2 = 0x10000 := rfl
      rw [natOfBytes_bytesOfNat, hs]
      exact Nat.mod_eq_of_lt (h w List.mem_cons_self)
    have htail := ih fun v hv => h v (List.mem_cons_of_mem w hv)
    have hpair : bytesOfNat 2 w = [UInt8.ofNat w, UInt8.ofNat (w / 256)] := rfl
    rw [hpair] at hw
    simp only [List.length_cons, List.flatMap_cons, hpair, List.cons_append, List.nil_append,
      takeWords?, htail, hw, Option.map_some]

theorem bytes_of_takeWords? {n : Nat} {bytes rest : List UInt8} {ws : List Nat}
    (h : takeWords? n bytes = some (ws, rest)) :
    ws.length = n ∧ (∀ w ∈ ws, w < 0x10000) ∧ ws.flatMap (bytesOfNat 2) ++ rest = bytes := by
  fun_induction takeWords? n bytes generalizing ws with
  | case1 bytes =>
    cases h
    exact ⟨rfl, fun _ hw => absurd hw List.not_mem_nil, rfl⟩
  | case2 n b c bytes ih =>
    obtain ⟨⟨vs, r⟩, hr, he⟩ := Option.map_eq_some_iff.1 h
    cases he
    obtain ⟨hlen, hlt, hbytes⟩ := ih hr
    have hs : Nat.pow 256 2 = 0x10000 := rfl
    have hw : natOfBytes [b, c] < 0x10000 := hs ▸ natOfBytes_lt [b, c]
    have hback : bytesOfNat 2 (natOfBytes [b, c]) = [b, c] := bytesOfNat_natOfBytes [b, c]
    refine ⟨by rw [List.length_cons, hlen], List.forall_mem_cons.2 ⟨hw, hlt⟩, ?_⟩
    rw [List.flatMap_cons, hback, ← hbytes]
    rfl
  | case3 => cases h

theorem blocksFrom_header (position : Nat) (o₁ o₂ o₃ o₄ c₁ c₂ c₃ c₄ : UInt8)
    (tail : List UInt8) :
    let count := intOfBytes [c₁, c₂, c₃, c₄]
    blocksFrom position (o₁ :: o₂ :: o₃ :: o₄ :: c₁ :: c₂ :: c₃ :: c₄ :: tail) =
      if count < 0 then .error (.negativeCount position count)
      else
        match takeWords? count.toNat tail with
        | none => .error (.truncated (position + 8))
        | some (ws, rest) =>
          (blocksFrom (position + 8 + 2 * count.toNat) rest).map
            (⟨intOfBytes [o₁, o₂, o₃, o₄], ws⟩ :: ·) := by
  intro count
  rw [blocksFrom]
  split
  · rfl
  · split
    · next h => simp only [count, h]
    · next h => simp only [count, h]

theorem length_blockBytes (b : Block) : (blockBytes b).length = 8 + 2 * b.words.length := by
  have words (ws : List Nat) : (ws.flatMap (bytesOfNat 2)).length = 2 * ws.length := by
    induction ws with
    | nil => rfl
    | cons w ws ih =>
      have pair : (bytesOfNat 2 w).length = 2 := rfl
      rw [List.flatMap_cons, List.length_append, pair, ih, List.length_cons]
      omega
  simp only [blockBytes, List.length_append, words]
  rfl

/-- Reading gives back the first block and goes on behind it. -/
theorem blocksFrom_blockBytes {b : Block} (hb : b.Storable) (position : Nat)
    (rest : List UInt8) :
    blocksFrom position (blockBytes b ++ rest) =
      (blocksFrom (position + 8 + 2 * b.words.length) rest).map (b :: ·) := by
  have hoffset := intOfBytes_bytesOfInt hb.offset_ge hb.offset_lt
  have hcount : intOfBytes (bytesOfInt b.words.length) = b.words.length := by
    have := hb.length_lt
    exact intOfBytes_bytesOfInt (by omega) (by omega)
  obtain ⟨o₁, o₂, o₃, o₄, ho⟩ : ∃ o₁ o₂ o₃ o₄, bytesOfInt b.offset = [o₁, o₂, o₃, o₄] :=
    ⟨_, _, _, _, rfl⟩
  obtain ⟨c₁, c₂, c₃, c₄, hc⟩ :
      ∃ c₁ c₂ c₃ c₄, bytesOfInt b.words.length = [c₁, c₂, c₃, c₄] := ⟨_, _, _, _, rfl⟩
  rw [ho] at hoffset
  rw [hc] at hcount
  have hnonneg : ¬ (b.words.length : Int) < 0 := by omega
  simp only [blockBytes, ho, hc, List.cons_append, List.nil_append]
  rw [blocksFrom_header, hcount, hoffset, if_neg hnonneg, Int.toNat_natCast,
    takeWords?_append hb.words_lt]

/-- Reading goes on behind blocks that have been written one after the other. -/
theorem blocksFrom_toBytes_append {blocks : List Block} (h : ∀ b ∈ blocks, b.Storable)
    (position : Nat) (rest : List UInt8) :
    blocksFrom position (toBytes blocks ++ rest) =
      (blocksFrom (position + (toBytes blocks).length) rest).map (blocks ++ ·) := by
  induction blocks generalizing position with
  | nil =>
    show blocksFrom position rest = (blocksFrom position rest).map ([] ++ ·)
    cases blocksFrom position rest <;> rfl
  | cons b bs ih =>
    have hb := h b List.mem_cons_self
    have htail := ih (fun c hc => h c (List.mem_cons_of_mem b hc))
    simp only [toBytes, List.flatMap_cons, List.append_assoc, List.length_append,
      length_blockBytes] at htail ⊢
    rw [blocksFrom_blockBytes hb, htail, ← Nat.add_assoc, ← Nat.add_assoc]
    cases blocksFrom _ rest <;> rfl

theorem blocksFrom_toBytes {blocks : List Block} (h : ∀ b ∈ blocks, b.Storable)
    (position : Nat) : blocksFrom position (toBytes blocks) = .ok blocks := by
  have all := blocksFrom_toBytes_append h position []
  rwa [List.append_nil, blocksFrom, Except.map, List.append_nil] at all

theorem ok_of_map {ε α β : Type} {f : α → β} {r : Except ε α} {b : β} (h : r.map f = .ok b) :
    ∃ a, r = .ok a ∧ b = f a := by
  cases r with
  | error e => cases h
  | ok a =>
    cases h
    exact ⟨a, rfl, rfl⟩

/-- A header and the words that it announces are what a block is written as. -/
theorem block_of_takeWords? (o₁ o₂ o₃ o₄ : UInt8) {c₁ c₂ c₃ c₄ : UInt8}
    {tail rest : List UInt8} {ws : List Nat} (hcount : 0 ≤ intOfBytes [c₁, c₂, c₃, c₄])
    (taken : takeWords? (intOfBytes [c₁, c₂, c₃, c₄]).toNat tail = some (ws, rest)) :
    let b : Block := ⟨intOfBytes [o₁, o₂, o₃, o₄], ws⟩
    b.Storable ∧ blockBytes b ++ rest = o₁ :: o₂ :: o₃ :: o₄ :: c₁ :: c₂ :: c₃ :: c₄ :: tail := by
  intro b
  obtain ⟨hlen, hws, htail⟩ := bytes_of_takeWords? taken
  obtain ⟨hol, hou⟩ := intOfBytes_range [o₁, o₂, o₃, o₄] rfl
  have hcu := (intOfBytes_range [c₁, c₂, c₃, c₄] rfl).2
  have hn : (ws.length : Int) = intOfBytes [c₁, c₂, c₃, c₄] := by omega
  have hlt : ws.length < 0x80000000 := by omega
  refine ⟨⟨hol, hou, hws, hlt⟩, ?_⟩
  have ho := bytesOfInt_intOfBytes [o₁, o₂, o₃, o₄] rfl
  have hc := bytesOfInt_intOfBytes [c₁, c₂, c₃, c₄] rfl
  simp only [b, blockBytes]
  rw [ho, hn, hc, List.append_assoc, htail]
  rfl

theorem bytes_of_blocksFrom {position : Nat} {bytes : List UInt8} {blocks : List Block}
    (h : blocksFrom position bytes = .ok blocks) :
    (∀ b ∈ blocks, b.Storable) ∧ toBytes blocks = bytes := by
  fun_induction blocksFrom position bytes generalizing blocks with
  | case1 =>
    cases h
    exact ⟨fun _ hb => absurd hb List.not_mem_nil, rfl⟩
  | case2 | case3 | case5 => cases h
  -- The hypothesis of the induction comes last and has no name of its own.
  | case4 _ o₁ o₂ o₃ o₄ c₁ c₂ c₃ c₄ tail count hcount ws rest taken _ =>
    rename_i ih
    obtain ⟨bs, hr, rfl⟩ := ok_of_map h
    obtain ⟨hbs, hrest⟩ := ih hr
    obtain ⟨first, hfirst⟩ := block_of_takeWords? o₁ o₂ o₃ o₄ (Int.not_lt.1 hcount) taken
    refine ⟨List.forall_mem_cons.2 ⟨first, hbs⟩, ?_⟩
    rw [← hfirst, ← hrest]
    rfl

theorem parse_eq_ok_iff (bytes : List UInt8) (blocks : List Block) :
    parse bytes = .ok blocks ↔ (∀ b ∈ blocks, b.Storable) ∧ toBytes blocks = bytes := by
  constructor
  · exact bytes_of_blocksFrom
  · rintro ⟨hb, rfl⟩
    exact blocksFrom_toBytes hb 0

/-- Reading succeeds exactly on what blocks are written as, and gives these blocks back: every
image that is accepted has one reading. -/
theorem every_image_has_one_reading :
    (∀ bytes blocks, parse bytes = .ok blocks ↔
      (∀ b ∈ blocks, b.Storable) ∧ toBytes blocks = bytes) ∧
    (∀ bytes, (∃ blocks, parse bytes = .ok blocks) ↔
      ∃! blocks, (∀ b ∈ blocks, b.Storable) ∧ toBytes blocks = bytes) := by
  refine ⟨parse_eq_ok_iff, fun bytes => ?_⟩
  constructor
  · rintro ⟨blocks, h⟩
    refine ⟨blocks, (parse_eq_ok_iff bytes blocks).1 h, fun others ho => ?_⟩
    have hp := (parse_eq_ok_iff bytes others).2 ho
    rw [h] at hp
    exact (Except.ok.inj hp).symm
  · rintro ⟨blocks, h, -⟩
    exact ⟨blocks, (parse_eq_ok_iff bytes blocks).2 h⟩

example :
    parse (toBytes [⟨-1, [0xFFFF, 0]⟩, ⟨0x100, []⟩]) =
      .ok [⟨-1, [0xFFFF, 0]⟩, ⟨0x100, []⟩] := by
  cbv

end Image
end TwelveBit
