import TwelveBit.Proofs.ImageFormat
/-!
Images that cannot be read. Reading goes from block to block, and the first one that is not all
there, or counts fewer than no words, is the one that is reported: there is one place in the image
up to which it can be read and no further.
-/
namespace TwelveBit.Image

def headerCount (bytes : List UInt8) : Int := intOfBytes ((bytes.drop 4).take 4)

inductive Flaw where
  | header
  | count
  | words

namespace Flaw

def Spoils (bytes : List UInt8) : Flaw → Prop
  | header => bytes.length < 8
  | count => 8 ≤ bytes.length ∧ headerCount bytes < 0
  | words => 8 ≤ bytes.length ∧ 0 ≤ headerCount bytes ∧ bytes.length < 8 + 2 * headerCount bytes

def report (o : Nat) (bytes : List UInt8) : Flaw → LoadError
  | header => .truncated o
  | count => .negativeCount o (headerCount bytes)
  | words => .truncated (o + 8)

variable {bytes : List UInt8}

theorem spoils_unique {f g : Flaw} (h : f.Spoils bytes) (h' : g.Spoils bytes) : f = g := by
  cases f <;> cases g <;> simp only [Spoils] at h h' <;> first | rfl | omega

/-- A block that is all there has no flaw. -/
theorem not_spoils_blockBytes {b : Block} (hb : b.Storable) (rest : List UInt8) (flaw : Flaw) :
    ¬ flaw.Spoils (blockBytes b ++ rest) := by
  have hcount : headerCount (blockBytes b ++ rest) = b.words.length := by
    have := hb.length_lt
    exact intOfBytes_bytesOfInt (by omega) (by omega)
  have hlen : (blockBytes b ++ rest).length = 8 + 2 * b.words.length + rest.length := by
    rw [List.length_append, length_blockBytes]
  cases flaw <;> simp only [Spoils, hcount, hlen] <;> omega

end Flaw

theorem takeWords?_eq_none {n : Nat} {bytes : List UInt8} (h : bytes.length < 2 * n) :
    takeWords? n bytes = none := by
  refine Option.eq_none_iff_forall_ne_some.2 fun (ws, rest) taken => ?_
  have := length_of_takeWords? taken
  omega

theorem takeWords?_of_le {n : Nat} {bytes : List UInt8} (h : 2 * n ≤ bytes.length) :
    ∃ ws rest, takeWords? n bytes = some (ws, rest) := by
  fun_induction takeWords? n bytes with
  | case1 bytes => exact ⟨[], bytes, rfl⟩
  | case2 n b c bytes ih =>
    obtain ⟨ws, rest, taken⟩ := ih (by simp only [List.length_cons] at h; omega)
    exact ⟨_, rest, by rw [taken, Option.map_some]⟩
  | case3 n bytes short =>
    rcases bytes with _ | ⟨b, _ | ⟨c, bytes⟩⟩
    case nil | cons.nil =>
      simp only [List.length_cons, List.length_nil] at h
      omega
    case cons.cons => exact absurd rfl (short b c bytes)

theorem exists_header {bytes : List UInt8} (h : 8 ≤ bytes.length) :
    ∃ o₁ o₂ o₃ o₄ c₁ c₂ c₃ c₄ tail,
      bytes = o₁ :: o₂ :: o₃ :: o₄ :: c₁ :: c₂ :: c₃ :: c₄ :: tail := by
  match bytes with
  | _ :: _ :: _ :: _ :: _ :: _ :: _ :: _ :: _ => exact ⟨_, _, _, _, _, _, _, _, _, rfl⟩

/-- A flaw is reported, whatever may follow. -/
theorem blocksFrom_of_spoils {bytes : List UInt8} {flaw : Flaw} (nonempty : bytes ≠ [])
    (h : flaw.Spoils bytes) (position : Nat) :
    blocksFrom position bytes = .error (flaw.report position bytes) := by
  cases flaw with
  | header =>
    unfold blocksFrom
    split
    · exact absurd rfl nonempty
    · simp only [Flaw.Spoils, List.length_cons] at h
      omega
    · rfl
  | count =>
    obtain ⟨full, negative⟩ := h
    obtain ⟨o₁, o₂, o₃, o₄, c₁, c₂, c₃, c₄, tail, rfl⟩ := exists_header full
    exact (blocksFrom_header ..).trans (if_pos negative)
  | words =>
    obtain ⟨full, nonneg, short⟩ := h
    obtain ⟨o₁, o₂, o₃, o₄, c₁, c₂, c₃, c₄, tail, rfl⟩ := exists_header full
    change 0 ≤ intOfBytes [c₁, c₂, c₃, c₄] at nonneg
    have few : takeWords? (intOfBytes [c₁, c₂, c₃, c₄]).toNat tail = none := by
      refine takeWords?_eq_none ?_
      change ((tail.length + 8 : Nat) : Int) < 8 + 2 * intOfBytes [c₁, c₂, c₃, c₄] at short
      omega
    rw [blocksFrom_header, if_neg (Int.not_lt.2 nonneg), few]
    rfl

/-- Bytes begin with a block that is all there, or with one that is not. -/
theorem block_or_flaw (bytes : List UInt8) :
    (∃ b rest, b.Storable ∧ bytes = blockBytes b ++ rest) ∨ ∃ flaw : Flaw, flaw.Spoils bytes := by
  by_cases full : 8 ≤ bytes.length
  · obtain ⟨o₁, o₂, o₃, o₄, c₁, c₂, c₃, c₄, tail, rfl⟩ := exists_header full
    by_cases negative : intOfBytes [c₁, c₂, c₃, c₄] < 0
    · exact Or.inr ⟨.count, full, negative⟩
    have nonneg := Int.not_lt.1 negative
    by_cases enough : 2 * (intOfBytes [c₁, c₂, c₃, c₄]).toNat ≤ tail.length
    · obtain ⟨ws, rest, taken⟩ := takeWords?_of_le enough
      obtain ⟨storable, written⟩ := block_of_takeWords? o₁ o₂ o₃ o₄ nonneg taken
      exact Or.inl ⟨_, rest, storable, written.symm⟩
    · refine Or.inr ⟨.words, full, nonneg, ?_⟩
      show ((tail.length + 8 : Nat) : Int) < 8 + 2 * intOfBytes [c₁, c₂, c₃, c₄]
      omega
  · exact Or.inr ⟨.header, Nat.not_le.1 full⟩

/-- Every image is blocks one after the other, and behind them either nothing or a flaw. -/
theorem exists_flawless_prefix (bytes : List UInt8) :
    ∃ blocks rest, (∀ b ∈ blocks, b.Storable) ∧ bytes = toBytes blocks ++ rest ∧
      (rest ≠ [] → ∃ flaw : Flaw, flaw.Spoils rest) := by
  induction hn : bytes.length using Nat.strongRecOn generalizing bytes with
  | _ n ih =>
    obtain ⟨b, tail, storable, rfl⟩ | spoiled := block_or_flaw bytes
    · have shorter : tail.length < n := by
        rw [List.length_append, length_blockBytes] at hn
        omega
      obtain ⟨blocks, rest, all, rfl, flawed⟩ := ih tail.length shorter tail rfl
      refine ⟨b :: blocks, rest, List.forall_mem_cons.2 ⟨storable, all⟩, ?_, flawed⟩
      rw [← List.append_assoc]
      rfl
    · exact ⟨[], bytes, fun _ h => absurd h List.not_mem_nil, rfl, fun _ => spoiled⟩

structure BreaksAt (bytes : List UInt8) (o : Nat) (flaw : Flaw) : Prop where
  readable : ∃ blocks, parse (bytes.take o) = .ok blocks
  more : bytes.drop o ≠ []
  spoils : flaw.Spoils (bytes.drop o)

namespace BreaksAt
variable {bytes : List UInt8} {o o' : Nat} {flaw flaw' : Flaw}

theorem lt (h : BreaksAt bytes o flaw) : o < bytes.length :=
  Nat.not_le.1 fun beyond => h.more (List.drop_eq_nil_of_le beyond)

theorem parse_eq (h : BreaksAt bytes o flaw) :
    parse bytes = .error (flaw.report o (bytes.drop o)) := by
  obtain ⟨blocks, read⟩ := h.readable
  obtain ⟨storable, written⟩ := (parse_eq_ok_iff _ _).1 read
  have length : (toBytes blocks).length = o := by
    rw [written, List.length_take, Nat.min_eq_left (Nat.le_of_lt h.lt)]
  have whole := blocksFrom_toBytes_append storable 0 (bytes.drop o)
  rw [written, List.take_append_drop, ← written, length, Nat.zero_add,
    blocksFrom_of_spoils h.more h.spoils] at whole
  exact whole

/-- No longer part of the image can be read. -/
theorem le_of_readable (h : BreaksAt bytes o flaw) {blocks : List Block}
    (read : parse (bytes.take o') = .ok blocks) (inside : o' ≤ bytes.length) : o' ≤ o := by
  refine Nat.not_lt.1 fun longer => ?_
  obtain ⟨blocks₀, read₀⟩ := h.readable
  obtain ⟨storable₀, written₀⟩ := (parse_eq_ok_iff _ _).1 read₀
  -- what lies between the two places would have to be blocks
  let between := (bytes.drop o).take (o' - o)
  have split : bytes.take o' = toBytes blocks₀ ++ between := by
    rw [written₀, ← List.take_add, Nat.add_sub_cancel' (Nat.le_of_lt longer)]
  have onward := blocksFrom_toBytes_append storable₀ 0 between
  rw [← split] at onward
  obtain ⟨bs, readable, -⟩ := ok_of_map (onward.symm.trans read)
  obtain ⟨storable, written⟩ := bytes_of_blocksFrom readable
  have some_bytes : between.length = o' - o := by
    rw [List.length_take, List.length_drop]
    omega
  cases bs with
  | nil =>
    rw [← written] at some_bytes
    change 0 = o' - o at some_bytes
    omega
  | cons b bs =>
    obtain ⟨first, -⟩ := List.forall_mem_cons.1 storable
    have start : bytes.drop o = blockBytes b ++ (toBytes bs ++ bytes.drop o') := by
      rw [← List.take_append_drop (o' - o) (bytes.drop o), List.drop_drop,
        Nat.add_sub_cancel' (Nat.le_of_lt longer), ← List.append_assoc]
      exact congrArg (· ++ bytes.drop o') written.symm
    exact Flaw.not_spoils_blockBytes first _ flaw (start ▸ h.spoils)

theorem unique (h : BreaksAt bytes o flaw) (h' : BreaksAt bytes o' flaw') : o = o' := by
  obtain ⟨blocks, read⟩ := h.readable
  obtain ⟨blocks', read'⟩ := h'.readable
  exact Nat.le_antisymm (h'.le_of_readable read (Nat.le_of_lt h.lt))
    (h.le_of_readable read' (Nat.le_of_lt h'.lt))

end BreaksAt

theorem exists_breaksAt {bytes : List UInt8} {e : LoadError} (h : parse bytes = .error e) :
    ∃ o flaw, BreaksAt bytes o flaw := by
  obtain ⟨blocks, rest, storable, rfl, flawed⟩ := exists_flawless_prefix bytes
  have whole := blocksFrom_toBytes_append storable 0 rest
  have more : rest ≠ [] := by
    rintro rfl
    rw [← parse, h, blocksFrom] at whole
    cases whole
  obtain ⟨flaw, spoils⟩ := flawed more
  refine ⟨(toBytes blocks).length, flaw, ⟨blocks, ?_⟩, ?_, ?_⟩
  · rw [List.take_left]
    exact blocksFrom_toBytes storable 0
  · rwa [List.drop_left]
  · rwa [List.drop_left]

/-- An image is refused just when there is one place up to which it can be read and where a block
with one flaw begins; and this flaw is the one reported. -/
theorem malformed_image_is_diagnosed (bytes : List UInt8) (e : LoadError) :
    parse bytes = .error e ↔
      ∃! o, (∃ blocks, parse (bytes.take o) = .ok blocks) ∧ bytes.drop o ≠ [] ∧
        ∃! flaw : Flaw, flaw.Spoils (bytes.drop o) ∧ e = flaw.report o (bytes.drop o) := by
  constructor
  · intro h
    obtain ⟨o, flaw, breaks⟩ := exists_breaksAt h
    have reported : e = flaw.report o (bytes.drop o) :=
      Except.error.inj (h.symm.trans breaks.parse_eq)
    refine ⟨o, ⟨breaks.readable, breaks.more, flaw, ⟨breaks.spoils, reported⟩,
      fun other h => Flaw.spoils_unique h.1 breaks.spoils⟩, ?_⟩
    rintro o' ⟨readable, more, other, ⟨spoils, -⟩, -⟩
    exact BreaksAt.unique ⟨readable, more, spoils⟩ breaks
  · rintro ⟨o, ⟨readable, more, flaw, ⟨spoils, rfl⟩, -⟩, -⟩
    exact BreaksAt.parse_eq ⟨readable, more, spoils⟩

/-- The words of the second block are not all there. -/
example :
    parse (toBytes [⟨0, [1]⟩] ++ [0, 0, 0, 0, 2, 0, 0, 0, 5, 0]) = .error (.truncated 18) := by
  cbv

end TwelveBit.Image
