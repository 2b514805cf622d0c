import Mathlib.Algebra.GroupWithZero.Nat
import Mathlib.Data.List.Nodup
import TwelveBit.Decoding
/-!
Encoded programs. The words of an instruction tell where it ends and what it is, so instructions
that are written one behind the other are read back as they were, whatever follows them.
-/
namespace TwelveBit

/-- Where numbers are not given twice, looking for the number of an item finds this item. -/
theorem find?_number {α : Type} {number : α → Nat} {items : List α}
    (hn : (items.map number).Nodup) {a : α} (ha : a ∈ items) :
    items.find? (fun b => number b = number a) = some a := by
  cases h : items.find? (fun b => number b = number a) with
  | none =>
    have := List.find?_eq_none.1 h a ha
    simp at this
  | some b =>
    have hb : number b = number a := by simpa using List.find?_some h
    rw [List.inj_on_of_nodup_map hn (List.mem_of_find?_eq_some h) ha hb]

theorem Opcode.ofNumber?_number (o : Opcode) : ofNumber? o.number = some o :=
  find?_number (numbers_increase.imp Nat.ne_of_lt) (mem_all o)

theorem JumpMode.ofNumber?_number (a : JumpMode) : ofNumber? a.number = some a :=
  find?_number (numbers_count ▸ List.nodup_range) (mem_all a)

theorem Opcode.number_lt (o : Opcode) : o.number < 0x1000 := by
  have h : ∀ p ∈ all, p.number < 0x1000 := by decide
  exact h o (mem_all o)

theorem JumpMode.number_lt (a : JumpMode) : a.number < 0x1000 := by
  have h : ∀ b ∈ all, b.number < 0x1000 := by decide
  exact h a (mem_all a)

namespace Instruction

def Canonical : Instruction → Prop
  | word _ k => k < 0x1000
  | long _ v => v < 0x1000000
  | jump (.absolute _ target) => target < 0x1000000
  | _ => True

instance : DecidablePred Canonical
  | word _ k => inferInstanceAs (Decidable (k < 0x1000))
  | long _ v => inferInstanceAs (Decidable (v < 0x1000000))
  | jump (.absolute _ target) => inferInstanceAs (Decidable (target < 0x1000000))
  | system _ | plain _ | jump .relative => inferInstanceAs (Decidable True)

theorem length_encode (i : Instruction) : i.encode.length = i.size := by
  cases i with
  | jump j => cases j <;> rfl
  | system | plain | word | long => rfl

theorem head?_encode (i : Instruction) : i.encode.head? = some i.opcode.number := by
  cases i with
  | jump j => cases j <;> rfl
  | system | plain | word | long => rfl

theorem split_lt (v : Nat) : ∀ w ∈ [high v, low v], w < 0x1000 :=
  List.forall_mem_cons.2 ⟨toWord_lt _, List.forall_mem_singleton.2 (toWord_lt _)⟩

theorem encode_lt (i : Instruction) : ∀ w ∈ i.encode, w < 0x1000 := by
  have hop : i.opcode.number < 0x1000 := i.opcode.number_lt
  cases i with
  | system op | plain op => exact List.forall_mem_singleton.2 hop
  | word op k => exact List.forall_mem_cons.2 ⟨hop, List.forall_mem_singleton.2 (toWord_lt k)⟩
  | long op v => exact List.forall_mem_cons.2 ⟨hop, split_lt v⟩
  | jump j =>
    have hmode : j.mode.number < 0x1000 := j.mode.number_lt
    cases j with
    | absolute c target =>
      exact List.forall_mem_cons.2 ⟨hop, List.forall_mem_cons.2 ⟨hmode, split_lt target⟩⟩
    | relative => exact List.forall_mem_cons.2 ⟨hop, List.forall_mem_singleton.2 hmode⟩

def Shows (fetch : Fetch) (ws : List Nat) : Prop :=
  ∀ k w, ws[k]? = some w → fetch k = .ok w

theorem run_ask {fetch : Fetch} {k w : Nat} (h : fetch k = .ok w) (asked : List Nat) :
    (ask fetch k).run asked = .ok w (asked ++ [k]) := by
  simp only [EStateM.run, ask, h]

theorem run_askLong {fetch : Fetch} {k h l : Nat} (hhigh : fetch k = .ok h)
    (hlow : fetch (k + 1) = .ok l) (asked : List Nat) :
    (askLong fetch k).run asked = .ok (join h l) (asked ++ [k] ++ [k + 1]) := by
  simp only [askLong, EStateM.run_bind, run_ask hhigh, run_ask hlow, EStateM.run_pure]

/-- The words are those of the instruction. An operand of one word is taken as it is, even if it has
more bits than a word; of the words of a long only the low bits count. -/
inductive Spells : List Nat → Instruction → Prop
  | system (op : SystemOp) : Spells [op.number] (.system op)
  | plain (op : PlainOp) : Spells [op.number] (.plain op)
  | word (op : WordOp) (k : Nat) : Spells [op.number, k] (.word op k)
  | long (op : LongOp) (h l : Nat) : Spells [op.number, h, l] (.long op (join h l))
  | absolute (c : Condition) (h l : Nat) :
      Spells [Opcode.jump.number, c.number, h, l] (.jump (.absolute c (join h l)))
  | relative : Spells [Opcode.jump.number, JumpMode.relative.number] (.jump .relative)

theorem Spells.length_eq {ws : List Nat} {i : Instruction} (h : Spells ws i) :
    ws.length = i.size := by
  cases h <;> rfl

theorem Spells.head?_eq {ws : List Nat} {i : Instruction} (h : Spells ws i) :
    ws.head? = some i.opcode.number := by
  cases h <;> rfl

theorem spells_encode {i : Instruction} (hi : i.Canonical) : Spells i.encode i := by
  have rejoined {v : Nat} (hv : v < 0x1000000) : join (high v) (low v) = v := by
    rw [join_split, toLong_of_lt hv]
  cases i with
  | system op => exact .system op
  | plain op => exact .plain op
  | word op k =>
    show Spells [op.number, toWord k] (.word op k)
    rw [toWord_of_lt hi]
    exact .word op k
  | long op v =>
    have spelled := Spells.long op (high v) (low v)
    rwa [rejoined hi] at spelled
  | jump j =>
    cases j with
    | absolute c target =>
      have spelled := Spells.absolute c (high target) (low target)
      rwa [rejoined hi] at spelled
    | relative => exact .relative

/-- Words that spell an instruction are asked for one behind the other, and it is decoded. -/
theorem Spells.run_decode {fetch : Fetch} {ws : List Nat} {i : Instruction} (hi : Spells ws i)
    (h : Shows fetch ws) : (decode fetch).run [] = .ok i (List.range i.size) := by
  have hop : fetch 0 = .ok i.opcode.number := h 0 _ (List.head?_eq_getElem? ▸ hi.head?_eq)
  simp only [decode, EStateM.run_bind, run_ask hop, Opcode.ofNumber?_number]
  cases hi with
  | system op | plain op => rfl
  | word op k =>
    have hk : fetch 1 = .ok k := h 1 _ rfl
    simp only [opcode, EStateM.run_bind, run_ask hk]
    rfl
  | long op a b =>
    have hhigh : fetch 1 = .ok a := h 1 _ rfl
    have hlow : fetch 2 = .ok b := h 2 _ rfl
    simp only [opcode, EStateM.run_bind, run_askLong hhigh hlow]
    rfl
  | absolute c a b =>
    have hmode : fetch 1 = .ok (JumpMode.when c).number := h 1 _ rfl
    have hhigh : fetch 2 = .ok a := h 2 _ rfl
    have hlow : fetch 3 = .ok b := h 3 _ rfl
    simp only [opcode, askJump, EStateM.run_bind, run_ask hmode, JumpMode.ofNumber?_number,
      run_askLong hhigh hlow]
    rfl
  | relative =>
    have hmode : fetch 1 = .ok JumpMode.relative.number := h 1 _ rfl
    simp only [opcode, askJump, EStateM.run_bind, run_ask hmode, JumpMode.ofNumber?_number]
    rfl

theorem run_decode {fetch : Fetch} {i : Instruction} (hi : i.Canonical)
    (h : Shows fetch i.encode) : (decode fetch).run [] = .ok i (List.range i.size) :=
  (spells_encode hi).run_decode h

theorem getElem?_middle {ws : List Nat} {k w : Nat} (front rest : List Nat)
    (h : ws[k]? = some w) : (front ++ (ws ++ rest))[front.length + k]? = some w := by
  rw [List.getElem?_append_right (Nat.le_add_right _ _), Nat.add_sub_cancel_left,
    List.getElem?_append_left (List.getElem?_eq_some_iff.1 h).1, h]

theorem shows_fetchFrom (front ws rest : List Nat) :
    Shows (fetchFrom (front ++ (ws ++ rest)).toArray front.length) ws := by
  intro k w h
  simp only [fetchFrom, List.getElem?_toArray, getElem?_middle front rest h]

def encodeAll (is : List Instruction) : List Nat := is.flatMap encode

theorem encodeAll_ne_nil {is : List Instruction} (h : is ≠ []) : encodeAll is ≠ [] := by
  obtain ⟨i, is, rfl⟩ := List.exists_cons_of_ne_nil h
  have hi := i.size_pos
  rw [← length_encode] at hi
  exact List.append_ne_nil_of_left_ne_nil (List.ne_nil_of_length_pos hi) _

/-- The first instruction is listed as it was written, and the listing goes on behind it. -/
theorem listing_encode {i : Instruction} (hi : i.Canonical) (front rest : List Nat) :
    listing (front ++ (i.encode ++ rest)).toArray front.length =
      ⟨front.length, List.range i.size, .ok i⟩ ::
        if rest = [] then []
        else listing ((front ++ i.encode) ++ rest).toArray (front ++ i.encode).length := by
  have hat : listAt (front ++ (i.encode ++ rest)).toArray front.length =
      ⟨front.length, List.range i.size, .ok i⟩ := by
    have hd := run_decode hi (shows_fetchFrom front i.encode rest)
    simp only [EStateM.run] at hd
    simp only [listAt, hd]
  have hmore : front.length + i.size < (front ++ (i.encode ++ rest)).toArray.size ↔ rest ≠ [] := by
    rw [List.size_toArray, List.length_append, List.length_append, length_encode,
      ← List.length_pos_iff]
    omega
  rw [listing, hat]
  simp only [hmore, List.append_assoc, List.length_append, length_encode]
  split <;> simp_all

theorem listing_encodeAll {is : List Instruction} (h : ∀ i ∈ is, i.Canonical)
    (front rest : List Nat) {k : Nat} (hk : k < is.length) :
    (listing (front ++ (encodeAll is ++ rest)).toArray front.length)[k]? =
      some ⟨front.length + ((is.take k).map size).sum, List.range is[k].size, .ok is[k]⟩ := by
  induction is generalizing front k with
  | nil => cases hk
  | cons i is ih =>
    have hi := h i List.mem_cons_self
    have hsplit : encodeAll (i :: is) ++ rest = i.encode ++ (encodeAll is ++ rest) := by
      rw [encodeAll, List.flatMap_cons, List.append_assoc]
      rfl
    rw [hsplit, listing_encode hi]
    cases k with
    | zero => rfl
    | succ k =>
      have hk' : k < is.length := Nat.lt_of_succ_lt_succ hk
      have htail := ih (fun j hj => h j (List.mem_cons_of_mem i hj)) (front ++ i.encode) hk'
      have hne : encodeAll is ++ rest ≠ [] :=
        List.append_ne_nil_of_left_ne_nil (encodeAll_ne_nil (List.ne_nil_of_length_pos (by omega))) _
      rw [if_neg hne, List.getElem?_cons_succ, htail]
      simp only [List.length_append, length_encode, List.take_succ_cons, List.map_cons,
        List.sum_cons, List.getElem_cons_succ, Nat.add_assoc]

/-- Words start with the encoding of one instruction only. -/
theorem eq_of_encode {i j : Instruction} (hi : i.Canonical) (hj : j.Canonical)
    {rest others : List Nat} (h : i.encode ++ rest = j.encode ++ others) : i = j := by
  have di := run_decode hi (shows_fetchFrom [] i.encode rest)
  have dj := run_decode hj (shows_fetchFrom [] j.encode others)
  rw [h, dj] at di
  cases di
  rfl

theorem encodeAll_injective {is js : List Instruction} (hi : ∀ i ∈ is, i.Canonical)
    (hj : ∀ j ∈ js, j.Canonical) (h : encodeAll is = encodeAll js) : is = js := by
  induction is generalizing js with
  | nil =>
    by_contra hne
    exact encodeAll_ne_nil (Ne.symm hne) h.symm
  | cons i is ih =>
    cases js with
    | nil => exact absurd h (encodeAll_ne_nil (List.cons_ne_nil i is))
    | cons j js =>
      simp only [encodeAll, List.flatMap_cons] at h
      have hij := eq_of_encode (hi i List.mem_cons_self) (hj j List.mem_cons_self) h
      subst hij
      have htail := ih (fun k hk => hi k (List.mem_cons_of_mem i hk))
        (fun k hk => hj k (List.mem_cons_of_mem i hk)) (List.append_cancel_left h)
      rw [htail]

/-- Instructions that are written one behind the other are listed in their order, each where the
ones in front of it end, whatever follows the last one; so no other program has the same words.
Every instruction takes up as many words of 12 bits as its size says, the first of which is the
number of its opcode. -/
theorem encoding_is_uniquely_decodable :
    (∀ (is : List Instruction) (rest : List Nat), (∀ i ∈ is, i.Canonical) →
      ∀ k (h : k < is.length), (listing (encodeAll is ++ rest).toArray 0)[k]? =
        some ⟨((is.take k).map size).sum, List.range is[k].size, .ok is[k]⟩) ∧
    (∀ is js : List Instruction, (∀ i ∈ is, i.Canonical) → (∀ j ∈ js, j.Canonical) →
      encodeAll is = encodeAll js → is = js) ∧
    (∀ i : Instruction, i.encode.length = i.size ∧ (∀ w ∈ i.encode, w < 0x1000) ∧
      i.encode.head? = some i.opcode.number) := by
  refine ⟨fun is rest h k hk => ?_, fun is js hi hj h => encodeAll_injective hi hj h,
    fun i => ⟨length_encode i, encode_lt i, head?_encode i⟩⟩
  simpa using listing_encodeAll h [] rest hk

/-- A relative jump, a jump on a condition and a push are listed at 0, 2 and 6, although a word
follows that is no opcode. -/
theorem mixed_program_is_listed :
    let is : List Instruction :=
      [.jump .relative, .jump (.absolute (.zero .long) 0xABCDEF), .word .push 0xFFF]
    (∀ i ∈ is, i.Canonical) ∧
      ∀ k (h : k < is.length), (listing (encodeAll is ++ [0xFFF]).toArray 0)[k]? =
        some ⟨[0, 2, 6][k], List.range is[k].size, .ok is[k]⟩ := by
  intro is
  have hc : ∀ i ∈ is, i.Canonical := by decide
  refine ⟨hc, fun k h => ?_⟩
  rw [encoding_is_uniquely_decodable.1 is [0xFFF] hc k h]
  have hsum : ∀ k : Fin 3, ((is.take k).map size).sum = [0, 2, 6][k] := by decide
  rw [hsum ⟨k, h⟩]
  rfl

end Instruction
end TwelveBit
