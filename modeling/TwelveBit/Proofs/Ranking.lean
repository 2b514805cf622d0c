import Mathlib.Data.List.Dedup
import Mathlib.Data.List.Sort
import TwelveBit.Proofs.Accounting
import TwelveBit.Proofs.Encoding
/-!
Rankings. No two entries of a profile have the same opcode, so one of any two entries comes first
for sure. The ranking is the only list in this order, however the entries are kept and in whatever
order the instructions were executed.
-/
namespace TwelveBit

theorem Opcode.number_inj {o p : Opcode} (h : o.number = p.number) : o = p := by
  have found := ofNumber?_number o
  rw [h, ofNumber?_number] at found
  exact (Option.some.inj found).symm

namespace Profile
variable {p : Profile} {op o : Opcode} {a b c : Opcode × Nat} {is : List Instruction}

def opcodes (p : Profile) : List Opcode := p.counts.map Prod.fst

theorem opcodes_note (p : Profile) (op : Opcode) :
    (p.note op).opcodes = if op ∈ p.opcodes then p.opcodes else p.opcodes ++ [op] := by
  obtain ⟨counts⟩ := p
  simp only [opcodes, note]
  induction counts with
  | nil => rfl
  | cons c counts ih =>
    by_cases first : c.1 = op
    · simp [bump, first]
    · by_cases later : op ∈ counts.map Prod.fst <;> simp_all [bump, Ne.symm first]

theorem mem_opcodes_note : o ∈ (p.note op).opcodes ↔ o ∈ p.opcodes ∨ o = op := by
  rw [opcodes_note]
  by_cases known : op ∈ p.opcodes
  · rw [if_pos known]
    exact ⟨Or.inl, fun h => h.elim id fun h => h ▸ known⟩
  · rw [if_neg known, List.mem_append, List.mem_singleton]

theorem nodup_note (distinct : p.opcodes.Nodup) : (p.note op).opcodes.Nodup := by
  rw [opcodes_note]
  by_cases known : op ∈ p.opcodes
  · rwa [if_pos known]
  · rw [if_neg known, ← List.concat_eq_append]
    exact distinct.concat known

theorem mem_opcodes_noting :
    o ∈ (p.noting is).opcodes ↔ o ∈ p.opcodes ∨ o ∈ is.map Instruction.opcode := by
  induction is generalizing p with
  | nil => simp [noting]
  | cons i is ih =>
    rw [noting, List.foldl_cons, ← noting, ih, mem_opcodes_note, List.map_cons, List.mem_cons,
      or_assoc]

theorem nodup_noting (distinct : p.opcodes.Nodup) : (p.noting is).opcodes.Nodup := by
  induction is generalizing p with
  | nil => exact distinct
  | cons i is ih => exact ih (nodup_note distinct)

theorem lookup_of_mem {counts : List (Opcode × Nat)} (distinct : (counts.map Prod.fst).Nodup)
    {n : Nat} (h : (o, n) ∈ counts) : counts.lookup o = some n := by
  induction counts with
  | nil => cases h
  | cons c counts ih =>
    obtain ⟨fresh, distinct⟩ := List.nodup_cons.1 distinct
    rw [List.lookup_cons]
    obtain rfl | h := List.mem_cons.1 h
    · rw [BEq.rfl]
    · have other : o ≠ c.1 := fun he => fresh (List.mem_map.2 ⟨_, h, he⟩)
      rw [beq_eq_false_iff_ne.2 other]
      exact ih distinct h

theorem mem_counts_iff (distinct : p.opcodes.Nodup) :
    a ∈ p.counts ↔ a.1 ∈ p.opcodes ∧ a.2 = p.count a.1 := by
  have counted {e : Opcode × Nat} (h : e ∈ p.counts) : e.2 = p.count e.1 := by
    rw [count, lookup_of_mem distinct h]
    rfl
  constructor
  · intro h
    exact ⟨List.mem_map_of_mem h, counted h⟩
  · rintro ⟨known, hn⟩
    obtain ⟨e, he, same⟩ := List.mem_map.1 known
    have entry : e = a := Prod.ext same (by rw [counted he, same, hn])
    exact entry ▸ he

/-- A new profile gets entries of the opcodes that it sees executed, and of no others. -/
theorem mem_opcodes_executed : o ∈ (noting {} is).opcodes ↔ o ∈ is.map Instruction.opcode :=
  mem_opcodes_noting.trans (or_iff_right List.not_mem_nil)

theorem distinct_noting (is : List Instruction) : (noting {} is).opcodes.Nodup :=
  nodup_noting (p := {}) List.nodup_nil

theorem mem_counts_noting :
    a ∈ (noting {} is).counts ↔
      a.1 ∈ is.map Instruction.opcode ∧ a.2 = (is.map Instruction.opcode).count a.1 := by
  have counts : (noting {} is).count a.1 = (is.map Instruction.opcode).count a.1 := by
    rw [count_noting, List.count_eq_countP, List.countP_map]
    exact Nat.zero_add _
  rw [mem_counts_iff (distinct_noting is), mem_opcodes_executed, counts]

def Ahead (a b : Opcode × Nat) : Prop := b.2 < a.2 ∨ a.2 = b.2 ∧ a.1.number < b.1.number

instance (a b : Opcode × Nat) : Decidable (Ahead a b) :=
  inferInstanceAs (Decidable (b.2 < a.2 ∨ a.2 = b.2 ∧ a.1.number < b.1.number))

instance : Std.Irrefl Ahead := ⟨fun a h => by unfold Ahead at h; omega⟩

instance : Std.Antisymm Ahead := ⟨fun a b h h' => by unfold Ahead at h h'; omega⟩

theorem before_iff : before a b = true ↔ b.2 < a.2 ∨ a.2 = b.2 ∧ a.1.number ≤ b.1.number := by
  simp [before]

theorem ahead_of_before (h : before a b = true) (other : a.1 ≠ b.1) : Ahead a b := by
  have numbers : a.1.number ≠ b.1.number := fun he => other (Opcode.number_inj he)
  rw [before_iff] at h
  unfold Ahead
  omega

def ranked (p : Profile) : List (Opcode × Nat) := p.counts.mergeSort before

theorem mem_ranked : a ∈ p.ranked ↔ a ∈ p.counts := List.mem_mergeSort

theorem nodup_ranked (distinct : p.opcodes.Nodup) : (p.ranked.map Prod.fst).Nodup :=
  ((List.mergeSort_perm p.counts before).map Prod.fst).nodup_iff.2 distinct

theorem pairwise_ranked (distinct : p.opcodes.Nodup) : p.ranked.Pairwise Ahead := by
  have sorted : p.ranked.Pairwise fun a b => before a b = true := by
    refine List.pairwise_mergeSort (fun a b c hab hbc => ?_) (fun a b => ?_) p.counts
    · rw [before_iff] at hab hbc ⊢
      omega
    · rw [Bool.or_eq_true, before_iff, before_iff]
      omega
  exact sorted.imp₂ (fun a b => ahead_of_before) (List.pairwise_map.1 (nodup_ranked distinct))

/-- Profiles with the same entries are ranked alike, in whatever order they keep them. -/
theorem ranked_congr {q : Profile} (hp : p.opcodes.Nodup) (hq : q.opcodes.Nodup)
    (same : ∀ e, e ∈ q.counts ↔ e ∈ p.counts) : q.ranked = p.ranked :=
  (pairwise_ranked hq).eq_of_mem_iff (pairwise_ranked hp) fun e => by
    rw [mem_ranked, mem_ranked, same]

structure Ranks (ops : List Opcode) (n : Nat) (entries : List (Opcode × Nat)) : Prop where
  length : entries.length = min n ops.dedup.length
  counted : ∀ e ∈ entries, e.2 = ops.count e.1 ∧ 0 < e.2
  distinct : (entries.map Prod.fst).Nodup
  ordered : entries.Pairwise Ahead
  rest : ∀ op ∈ ops, op ∉ entries.map Prod.fst → ∀ e ∈ entries, Ahead e (op, ops.count op)

theorem length_ranked (is : List Instruction) :
    (noting {} is).ranked.length = (is.map Instruction.opcode).dedup.length := by
  have known : (noting {} is).opcodes.Perm (is.map Instruction.opcode).dedup := by
    refine (List.perm_ext_iff_of_nodup (distinct_noting is) (List.nodup_dedup _)).2 fun o => ?_
    rw [List.mem_dedup, mem_opcodes_executed]
  calc
    (noting {} is).ranked.length = (noting {} is).counts.length :=
      (List.mergeSort_perm ..).length_eq
    _ = (noting {} is).opcodes.length := (List.length_map _).symm
    _ = (is.map Instruction.opcode).dedup.length := known.length_eq

theorem mem_ranked_noting :
    a ∈ (noting {} is).ranked ↔
      a.1 ∈ is.map Instruction.opcode ∧ a.2 = (is.map Instruction.opcode).count a.1 :=
  mem_ranked.trans mem_counts_noting

theorem ranks_top (is : List Instruction) (n : Nat) :
    Ranks (is.map Instruction.opcode) n ((noting {} is).top n) := by
  have ordered := pairwise_ranked (distinct_noting is)
  constructor
  case length =>
    rw [← length_ranked]
    exact List.length_take
  case counted =>
    intro e he
    obtain ⟨executed, count⟩ := mem_ranked_noting.1 (List.mem_of_mem_take he)
    exact ⟨count, count ▸ List.count_pos_iff.2 executed⟩
  case distinct =>
    exact (nodup_ranked (distinct_noting is)).sublist ((List.take_sublist n _).map Prod.fst)
  case ordered => exact ordered.sublist (List.take_sublist n _)
  case rest =>
    intro op hop left e he
    have there : (op, (is.map Instruction.opcode).count op) ∈ (noting {} is).ranked :=
      mem_ranked_noting.2 ⟨hop, rfl⟩
    -- what was left out stands behind the entries in the same ordered list
    rw [← List.take_append_drop n (noting {} is).ranked] at there ordered
    obtain ⟨-, -, across⟩ := List.pairwise_append.1 ordered
    obtain there | there := List.mem_append.1 there
    · exact absurd (List.mem_map_of_mem there) left
    · exact across e he _ there

/-- What the list leaves out can be added behind it, and then it is all entries in their order. -/
theorem Ranks.append_others {n : Nat} {entries : List (Opcode × Nat)}
    (h : Ranks (is.map Instruction.opcode) n entries) :
    entries ++ (noting {} is).ranked.filter (fun e => e.1 ∉ entries.map Prod.fst) =
      (noting {} is).ranked := by
  have ordered := pairwise_ranked (distinct_noting is)
  -- two lists in the same strict order with the same members are the same
  refine List.Pairwise.eq_of_mem_iff (List.pairwise_append.2
    ⟨h.ordered, ordered.sublist List.filter_sublist, fun a ha b hb => ?_⟩) ordered fun e => ?_
  · obtain ⟨there, left⟩ := List.mem_filter.1 hb
    obtain ⟨executed, count⟩ := mem_ranked_noting.1 there
    have ahead := h.rest b.1 executed (of_decide_eq_true left) a ha
    rwa [← count] at ahead
  · rw [List.mem_append, List.mem_filter, decide_eq_true_eq]
    constructor
    · rintro (listed | ⟨there, -⟩)
      · obtain ⟨count, pos⟩ := h.counted e listed
        exact mem_ranked_noting.2 ⟨List.count_pos_iff.1 (count ▸ pos), count⟩
      · exact there
    · intro there
      by_cases left : e.1 ∈ entries.map Prod.fst
      · obtain ⟨e', listed, same⟩ := List.mem_map.1 left
        have entry : e' = e :=
          Prod.ext same (by rw [(h.counted e' listed).1, same, (mem_ranked_noting.1 there).2])
        exact Or.inl (entry ▸ listed)
      · exact Or.inr ⟨there, left⟩

theorem Ranks.eq_top {n : Nat} {entries : List (Opcode × Nat)}
    (h : Ranks (is.map Instruction.opcode) n entries) : entries = (noting {} is).top n := by
  have length := h.length
  have whole := h.append_others
  generalize (noting {} is).ranked.filter (fun e => e.1 ∉ entries.map Prod.fst) = others at whole
  rw [← length_ranked, ← whole, List.length_append] at length
  have cut : others.take (n - entries.length) = [] := by
    rw [List.take_eq_nil_iff, ← List.length_eq_zero_iff]
    omega
  calc
    entries = (entries ++ others).take n := by
      rw [List.take_append, cut, List.append_nil, List.take_of_length_le (by omega)]
    _ = (noting {} is).top n := by rw [whole]; rfl

/-- A profile ranks the opcodes that were executed since it was new: each once and with the number
of times it was, ordered by these and then by its own number, so that no other ranking is possible.
It does not depend on the order in which the entries are kept or the instructions were executed, and
a profile among the hosts of a machine comes to it on every journey. -/
theorem ranking_is_canonical (is : List Instruction) (n : Nat) :
    let ops := is.map Instruction.opcode
    let p := noting {} is
    Ranks ops n (p.top n) ∧ (∀ entries, Ranks ops n entries → entries = p.top n) ∧
      (∀ q : Profile, q.counts.Perm p.counts → q.top n = p.top n) ∧
      (∀ js : List Instruction, (js.map Instruction.opcode).Perm ops →
        (noting {} js).top n = p.top n) ∧
      ∀ {σ : Type} (h : Host σ) (view : σ → Profile) (m k : Machine) (s u : σ)
        (es : List Happening) (stop : Option Stop), Attached view h → view s = {} →
        Machine.Journey h m s es stop k u → es.filterMap Happening.executed? = is →
        view u = p := by
  intro ops p
  have distinct : p.opcodes.Nodup := distinct_noting is
  refine ⟨ranks_top is n, fun entries h => h.eq_top, fun q kept => ?_, fun js shuffled => ?_,
    fun h view m k s u es stop attached fresh journey executed => ?_⟩
  · have opcodes : q.opcodes.Nodup := (kept.map Prod.fst).nodup_iff.2 distinct
    exact congrArg (List.take n) (ranked_congr distinct opcodes fun e => kept.mem_iff)
  · refine congrArg (List.take n) (ranked_congr distinct (distinct_noting js) fun e => ?_)
    rw [mem_counts_noting, mem_counts_noting, shuffled.mem_iff, shuffled.count_eq]
  · have noted : view u = noting (view s) (es.filterMap Happening.executed?) :=
      journey.noted attached
    rw [noted, fresh, executed]

/-- Two `nop` and a `hlt` are ranked by their counts, also if the `hlt` had come first. Without
counts to tell them apart the lower number is first. -/
theorem opcodes_are_ranked_by_count_and_number :
    let m := ((Machine.new ⟨16, 0, 0, 16, by decide⟩).onMemory
      (Memory.loadRom 0 [0, 0, 1])).2.reset 16
    let r := m.run host 3 {}
    let nop : Instruction := .system .nop
    let halt : Instruction := .system .halt
    r.1 = some (.exit .halted) ∧ r.2.2.top 1 = [(.system .nop, 2)] ∧
      (noting {} [halt, nop, nop]).top 1 = r.2.2.top 1 ∧
      (noting {} [halt, nop]).top 2 = [(.system .nop, 1), (.system .halt, 1)] := by
  intro m r nop halt
  have halted : r.1 = some (.exit .halted) := by decide +kernel
  obtain ⟨-, only, -, shuffled, followed⟩ := ranking_is_canonical [nop, nop, halt] 1
  have journey := (Machine.Journey.start (h := host) (m := m) (s := {})).run
    (fun hb => by cases hb) (by decide : 0 < 3)
  have executed : ([] ++ m.runHistory host 3 {}).filterMap Happening.executed? =
      [nop, nop, halt] := by
    decide +kernel
  have noted := followed host id m _ {} _ _ _ attached_host rfl journey executed
  dsimp only [id] at noted
  have first : Ranks [.system .nop, .system .nop, .system .halt] 1 [(.system .nop, 2)] :=
    ⟨by decide, by decide, by decide, by decide, by decide⟩
  have tied : Ranks [.system .halt, .system .nop] 2 [(.system .nop, 1), (.system .halt, 1)] :=
    ⟨by decide, by decide, by decide, by decide, by decide⟩
  refine ⟨halted, ?_, ?_, ((ranking_is_canonical [halt, nop] 2).2.1 _ tied).symm⟩
  · rw [noted]
    exact (only _ first).symm
  · rw [noted]
    exact shuffled [halt, nop, nop] (by decide)

end Profile
end TwelveBit
