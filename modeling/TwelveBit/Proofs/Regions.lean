import Mathlib.Logic.ExistsUnique
import TwelveBit.Proofs.MemoryChange
/-!
Regions. The four of them share out the memory among themselves: each address up to the end lies in
exactly one, also where some are empty. Which region it is decides whether a word can be written,
and what the fault is otherwise.
-/
namespace TwelveBit

namespace Layout

def Holds (l : Layout) (r : Region) (a : Nat) : Prop := l.base r ≤ a ∧ a < l.base r + l.size r

instance (l : Layout) (r : Region) (a : Nat) : Decidable (l.Holds r a) :=
  inferInstanceAs (Decidable (l.base r ≤ a ∧ a < l.base r + l.size r))

def Writable (l : Layout) (a : Nat) : Prop := l.region? a ∈ [some .ram, some .gram, some .vram]

inductive Refuses (l : Layout) (a : Nat) : Fault → Prop where
  | program : l.region? a = some .rom → Refuses l a (.romWrite a)
  | outside : l.region? a = none → Refuses l a (.outOfRange a)

variable {l : Layout} {r s : Region} {a ram gram vram rom : Nat}

theorem make_eq_ok_iff :
    make ram gram vram rom = .ok l ↔
      ram + gram + vram + rom ≤ 0x1000000 ∧ Region.all.map l.size = [ram, gram, vram, rom] := by
  obtain ⟨ram', gram', vram', rom', fits⟩ := l
  simp only [Region.all, List.map_cons, List.map_nil, size, List.cons.injEq, and_true]
  unfold make
  constructor
  · intro h
    split at h
    · next fit =>
      cases h
      exact ⟨fit, rfl, rfl, rfl, rfl⟩
    · cases h
  · rintro ⟨fit, rfl, rfl, rfl, rfl⟩
    rw [dif_pos fit]

theorem exists_make_iff :
    (∃ l, make ram gram vram rom = .ok l) ↔ ram + gram + vram + rom ≤ 0x1000000 := by
  constructor
  · rintro ⟨l, h⟩
    exact (make_eq_ok_iff.1 h).1
  · intro fit
    exact ⟨⟨ram, gram, vram, rom, fit⟩, make_eq_ok_iff.2 ⟨fit, rfl⟩⟩

theorem holds_unique (h : l.Holds r a) (h' : l.Holds s a) : r = s := by
  cases r <;> cases s <;> simp only [Holds, base, size] at h h' <;> first | rfl | omega

theorem exists_holds_iff : (∃ r, l.Holds r a) ↔ a < l.total := by
  constructor
  · rintro ⟨r, h⟩
    cases r <;> simp only [Holds, base, size] at h <;> simp only [total] <;> omega
  · intro h
    simp only [total] at h
    -- the first region that ends behind the address
    by_cases h₁ : a < l.ram
    · exact ⟨.ram, Nat.zero_le a, (Nat.zero_add l.ram).symm ▸ h₁⟩
    by_cases h₂ : a < l.ram + l.gram
    · exact ⟨.gram, Nat.not_lt.1 h₁, h₂⟩
    by_cases h₃ : a < l.ram + l.gram + l.vram
    · exact ⟨.vram, Nat.not_lt.1 h₂, h₃⟩
    · exact ⟨.rom, Nat.not_lt.1 h₃, h⟩

theorem existsUnique_holds_iff : (∃! r, l.Holds r a) ↔ a < l.total := by
  rw [← exists_holds_iff]
  exact ⟨ExistsUnique.exists, fun ⟨r, h⟩ => ⟨r, h, fun _ h' => holds_unique h' h⟩⟩

theorem region?_eq_none_iff : l.region? a = none ↔ l.total ≤ a := by
  rw [← Nat.not_lt, ← exists_holds_iff, not_exists, region?, List.find?_eq_none]
  have all (r : Region) : r ∈ Region.all := by cases r <;> decide
  exact ⟨fun h r hr => h r (all r) (decide_eq_true hr), fun h r _ hr => h r (of_decide_eq_true hr)⟩

theorem region?_eq_some_iff : l.region? a = some r ↔ l.Holds r a := by
  have found {s : Region} (h : l.region? a = some s) : l.Holds s a := by
    have test := List.find?_some h
    exact of_decide_eq_true test
  refine ⟨found, fun h => ?_⟩
  cases hs : l.region? a with
  | none =>
    have mapped := exists_holds_iff.1 ⟨r, h⟩
    have beyond := region?_eq_none_iff.1 hs
    omega
  | some s => rw [holds_unique (found hs) h]

/-- Program memory is the last of the regions. -/
theorem region?_eq_rom_iff : l.region? a = some .rom ↔ l.romBase ≤ a ∧ a < l.total :=
  region?_eq_some_iff

/-- Every region but the last one can be written. -/
theorem writable_iff : l.Writable a ↔ a < l.romBase := by
  have mapped := region?_eq_none_iff (l := l) (a := a)
  have program := region?_eq_rom_iff (l := l) (a := a)
  have order := l.romBase_le_total
  unfold Writable
  cases hr : l.region? a with
  | none =>
    rw [hr] at mapped
    have beyond := mapped.1 rfl
    refine iff_of_false (by decide) (by omega)
  | some r =>
    rw [hr] at mapped program
    have inside : a < l.total := Nat.not_le.1 fun h => by cases mapped.2 h
    cases r with
    | rom =>
      have := (program.1 rfl).1
      exact iff_of_false (by decide) (by omega)
    | ram | gram | vram =>
      refine iff_of_true (by decide) (Nat.not_le.1 fun h => ?_)
      cases program.2 ⟨h, inside⟩

end Layout

namespace Memory
variable {m n : Memory} {a v : Nat} {f : Fault}

/-- The words of the regions, one region behind the other, are those of the memory. -/
theorem regionWords_append (m : Memory) :
    m.regionWords .ram ++ m.regionWords .gram ++ m.regionWords .vram ++ m.regionWords .rom =
      m.words := by
  have whole : m.words.extract 0 m.layout.total = m.words := by
    rw [← m.size_words, Array.extract_size]
  simp only [regionWords, slice, Layout.base, Layout.size, Nat.zero_add,
    Array.extract_append_extract, Nat.zero_min, Nat.le_add_right, Nat.max_eq_right]
  exact whole

theorem refusal?_eq_none_iff_writable : m.refusal? a = none ↔ m.layout.Writable a := by
  rw [refusal?_eq_none_iff, Layout.writable_iff]

theorem refusal?_eq_some_iff : m.refusal? a = some f ↔ m.layout.Refuses a f := by
  constructor
  · intro h
    unfold refusal? at h
    split at h
    · next beyond =>
      cases h
      exact .outside (Layout.region?_eq_none_iff.2 beyond)
    · next mapped =>
      split at h
      · next program =>
        cases h
        exact .program (Layout.region?_eq_rom_iff.2 ⟨program, Nat.not_le.1 mapped⟩)
      · cases h
  · rintro (program | outside)
    · obtain ⟨from_base, mapped⟩ := Layout.region?_eq_rom_iff.1 program
      rw [refusal?, if_neg (Nat.not_le.2 mapped), if_pos from_base]
    · rw [refusal?, if_pos (Layout.region?_eq_none_iff.1 outside)]

/-- A change that is refused comes to this fault, and memory stays as it is. -/
theorem refused_eq_error_iff {refusal : Option Fault} {k : Memory} :
    (match refusal with
      | some g => EStateM.Result.error g m
      | none => .ok () k) = .error f n ↔ refusal = some f ∧ n = m := by
  cases refusal with
  | none => exact iff_of_false (fun h => by cases h) fun h => by cases h.1
  | some g =>
    constructor
    · intro h
      cases h
      exact ⟨rfl, rfl⟩
    · rintro ⟨h, rfl⟩
      cases h
      rfl

/-- A memory in which one word has been stored is told by that word and all the others. -/
theorem eq_put_iff (h : a < m.layout.total) :
    n = m.put a v ↔ n.read a = .ok (toWord v) ∧ Agree (· ≠ a) m n := by
  constructor
  · rintro rfl
    refine ⟨?_, Agree.set a _ fun h => h rfl⟩
    rw [read, layout_put, if_pos h, word_put, if_pos ⟨rfl, h⟩]
  · rintro ⟨stored, others⟩
    refine ext_word others.layout_eq fun b _ => ?_
    rw [word_put]
    by_cases hb : b = a
    · subst hb
      rw [read, others.layout_eq, if_pos h] at stored
      rw [if_pos ⟨rfl, h⟩, Except.ok.inj stored]
    · rw [if_neg fun h => hb h.1, others.word_eq b hb]

theorem run_write_eq_ok_iff :
    (write a v).run m = .ok () n ↔
      m.layout.Writable a ∧ n.read a = .ok (toWord v) ∧ Agree (· ≠ a) m n := by
  rw [← refusal?_eq_none_iff_writable, run_write]
  cases refused : m.refusal? a with
  | some f => exact iff_of_false (fun h => by cases h) fun h => by cases h.1
  | none =>
    have mapped : a < m.layout.total :=
      Nat.lt_of_lt_of_le ((m.refusal?_eq_none_iff a).1 refused) m.layout.romBase_le_total
    rw [and_iff_right rfl, ← eq_put_iff mapped]
    exact ⟨fun h => by cases h; rfl, fun h => h ▸ rfl⟩

theorem run_write_eq_error_iff :
    (write a v).run m = .error f n ↔ m.layout.Refuses a f ∧ n = m := by
  rw [← refusal?_eq_some_iff, run_write]
  exact refused_eq_error_iff

/-- Both words are written, one after the other. -/
theorem run_writeLong_eq_ok_iff :
    (writeLong a v).run m = .ok () n ↔
      m.layout.Writable a ∧ m.layout.Writable (next a) ∧
        (do write a (high v); write (next a) (low v)).run m = .ok () n := by
  rw [← refusal?_eq_none_iff_writable, ← refusal?_eq_none_iff_writable, run_writeLong]
  cases first : m.refusal? a with
  | some f => exact iff_of_false (fun h => by cases h) fun h => by cases h.1
  | none =>
    cases second : m.refusal? (next a) with
    | some f => exact iff_of_false (fun h => by cases h) fun h => by cases h.2.1
    | none =>
      have second' : (m.put a (high v)).refusal? (next a) = none := second
      simp only [Option.none_or, EStateM.run_bind, run_write, first, second', true_and]

/-- The first of the two words that cannot be written is the fault. -/
theorem run_writeLong_eq_error_iff :
    (writeLong a v).run m = .error f n ↔
      (m.layout.Refuses a f ∨ m.layout.Writable a ∧ m.layout.Refuses (next a) f) ∧ n = m := by
  rw [← refusal?_eq_none_iff_writable, ← refusal?_eq_some_iff, ← refusal?_eq_some_iff,
    run_writeLong]
  have refused : (m.refusal? a).or (m.refusal? (next a)) = some f ↔
      m.refusal? a = some f ∨ m.refusal? a = none ∧ m.refusal? (next a) = some f :=
    Option.or_eq_some_iff
  rw [← refused]
  exact refused_eq_error_iff

end Memory

open Memory

/-- A layout is any four sizes that fit into the address space. Its regions share out the memory
among themselves, and a word can be written just where it lies in another region than program
memory: then nothing else changes, and otherwise nothing at all. A long is written like its two
words as long as both can be, and else not at all. -/
theorem regions_share_memory_and_protect_program :
    (∀ ram gram vram rom,
      ((∃ l, Layout.make ram gram vram rom = .ok l) ↔ ram + gram + vram + rom ≤ 0x1000000) ∧
      ∀ l, Layout.make ram gram vram rom = .ok l ↔
        ram + gram + vram + rom ≤ 0x1000000 ∧ Region.all.map l.size = [ram, gram, vram, rom]) ∧
    (∀ (l : Layout) a,
      (∀ r, l.region? a = some r ↔ l.base r ≤ a ∧ a < l.base r + l.size r) ∧
      ((∃! r, l.base r ≤ a ∧ a < l.base r + l.size r) ↔ a < l.total) ∧
      (l.region? a = none ↔ l.total ≤ a)) ∧
    ∀ m : Memory,
      m.regionWords .ram ++ m.regionWords .gram ++ m.regionWords .vram ++ m.regionWords .rom =
        m.words ∧
      ∀ a v n f,
        ((write a v).run m = .ok () n ↔
          m.layout.Writable a ∧ n.read a = .ok (toWord v) ∧ Agree (· ≠ a) m n) ∧
        ((write a v).run m = .error f n ↔ m.layout.Refuses a f ∧ n = m) ∧
        ((writeLong a v).run m = .ok () n ↔
          m.layout.Writable a ∧ m.layout.Writable (next a) ∧
            (do write a (high v); write (next a) (low v)).run m = .ok () n) ∧
        ((writeLong a v).run m = .error f n ↔
          (m.layout.Refuses a f ∨ m.layout.Writable a ∧ m.layout.Refuses (next a) f) ∧
            n = m) := by
  refine ⟨fun _ _ _ _ => ⟨Layout.exists_make_iff, fun _ => Layout.make_eq_ok_iff⟩,
    fun l a => ?_, fun m => ?_⟩
  · exact ⟨fun _ => Layout.region?_eq_some_iff, Layout.existsUnique_holds_iff,
      Layout.region?_eq_none_iff⟩
  · exact ⟨m.regionWords_append, fun _ _ _ _ => ⟨run_write_eq_ok_iff, run_write_eq_error_iff,
      run_writeLong_eq_ok_iff, run_writeLong_eq_error_iff⟩⟩

/-- Without graphics registers video memory begins right behind working memory. -/
example : (⟨16, 0, 8, 8, by decide⟩ : Layout).region? 16 = some .vram := by decide

end TwelveBit
