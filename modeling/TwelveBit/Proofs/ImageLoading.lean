import Mathlib.Algebra.GroupWithZero.Nat
import TwelveBit.Proofs.ImageFormat
import TwelveBit.Proofs.ProgramMemory
/-!
Loading an image. The blocks go into program memory one after the other, so where they overlap the
last one counts. The first block that does not fit ends the loading, and what was loaded until then
stays; nothing but program memory is touched.
-/
namespace TwelveBit
open Memory

structure Block.Fits (size : Nat) (b : Block) : Prop where
  nonneg : 0 ≤ b.offset
  le : b.offset + b.words.length ≤ size

instance (size : Nat) (b : Block) : Decidable (b.Fits size) :=
  decidable_of_iff (0 ≤ b.offset ∧ b.offset + b.words.length ≤ size)
    ⟨fun ⟨h, h'⟩ => ⟨h, h'⟩, fun ⟨h, h'⟩ => ⟨h, h'⟩⟩

def Block.word? (b : Block) (i : Nat) : Option Nat :=
  if b.offset ≤ i then b.words[(i - b.offset).toNat]? else none

namespace Image

def lastWord? (blocks : List Block) (i : Nat) : Option Nat :=
  blocks.reverse.findSome? fun b => b.word? i

def wordCount (blocks : List Block) : Nat := (blocks.map fun b => b.words.length).sum

theorem lastWord?_append (front rest : List Block) (i : Nat) :
    lastWord? (front ++ rest) i = (lastWord? rest i).or (lastWord? front i) := by
  simp only [lastWord?, List.reverse_append, List.findSome?_append]

end Image

namespace Machine
variable {m n k : Machine} {b : Block} {blocks front rest : List Block}

structure Loaded (blocks : List Block) (m n : Machine) : Prop where
  rest_eq : n = { m with memory := n.memory }
  data : Agree (· < m.memory.layout.romBase) m.memory n.memory
  program : ∀ i < m.memory.layout.rom,
    n.memory.word (m.memory.layout.romBase + i) =
      ((Image.lastWord? blocks i).map toWord).getD (m.memory.word (m.memory.layout.romBase + i))

namespace Loaded

theorem refl (m : Machine) : Loaded [] m m where
  rest_eq := rfl
  data := Agree.refl _ _
  program _ _ := rfl

theorem trans (h : Loaded front m n) (h' : Loaded rest n k) : Loaded (front ++ rest) m k := by
  have layout := h.data.layout_eq
  obtain ⟨rest_eq, data, program⟩ := h'
  rw [layout] at data program
  constructor
  case rest_eq =>
    rw [rest_eq, h.rest_eq]
  case data => exact h.data.trans data
  case program =>
    intro i hi
    rw [program i hi, h.program i hi, Image.lastWord?_append]
    cases Image.lastWord? rest i <;> rfl

end Loaded

theorem loadBlock_of_fits (h : b.Fits m.memory.layout.rom) :
    m.loadBlock b =
      (.ok (), { m with
        memory := putAll b.words (m.memory.layout.romBase + b.offset.toNat) m.memory }) := by
  rw [loadBlock, onMemory_eq, run_loadRom, if_pos ⟨h.nonneg, h.le⟩]

/-- A block that does not fit changes nothing. -/
theorem loadBlock_of_not_fits (h : ¬ b.Fits m.memory.layout.rom) :
    m.loadBlock b = (.error (.outsideRom b.offset b.words.length m.memory.layout.rom), m) := by
  rw [loadBlock, onMemory_eq, run_loadRom, if_neg fun ⟨nonneg, le⟩ => h ⟨nonneg, le⟩]

/-- What a block has for a cell comes to stand there, and no other cell is touched. -/
theorem loaded_block (h : b.Fits m.memory.layout.rom) : Loaded [b] m (m.loadBlock b).2 := by
  obtain ⟨nonneg, le⟩ := h
  have size := m.memory.layout.romBase_add_rom
  rw [loadBlock_of_fits ⟨nonneg, le⟩]
  have kept := agree_putAll b.words (m.memory.layout.romBase + b.offset.toNat) m.memory
  constructor
  case rest_eq => rfl
  case data => exact kept.mono fun a ha => Or.inl (by omega)
  case program =>
    intro i hi
    have single : Image.lastWord? [b] i = b.word? i := by
      simp only [Image.lastWord?, List.reverse_cons, List.reverse_nil, List.nil_append,
        List.findSome?_cons, List.findSome?_nil]
      cases b.word? i <;> rfl
    rw [single, Block.word?]
    by_cases before : b.offset ≤ i
    · rw [if_pos before]
      have place : m.memory.layout.romBase + i =
          m.memory.layout.romBase + b.offset.toNat + (i - b.offset).toNat := by omega
      cases covered : b.words[(i - b.offset).toNat]? with
      | some v =>
        rw [place]
        exact word_putAll (by omega) covered
      | none =>
        -- the block ends before that place
        have behind := List.getElem?_eq_none_iff.1 covered
        exact kept.word_eq _ (Or.inr (by omega))
    · rw [if_neg before]
      exact kept.word_eq _ (Or.inl (by omega))

/-- Blocks that fit are loaded and counted, and loading goes on behind them. -/
theorem loadBlocks_append (fits : ∀ b ∈ front, b.Fits m.memory.layout.rom) :
    ∃ n, Loaded front m n ∧ ∀ rest, m.loadBlocks (front ++ rest) =
      ((n.loadBlocks rest).1.map (Image.wordCount front + ·), (n.loadBlocks rest).2) := by
  induction front generalizing m with
  | nil =>
    refine ⟨m, Loaded.refl m, fun rest => ?_⟩
    show m.loadBlocks rest = ((m.loadBlocks rest).1.map (0 + ·), (m.loadBlocks rest).2)
    rcases m.loadBlocks rest with ⟨r, n⟩
    cases r with
    | error e => rfl
    | ok count => rw [Except.map, Nat.zero_add]
  | cons b bs ih =>
    obtain ⟨fit, others⟩ := List.forall_mem_cons.1 fits
    have first := loaded_block fit
    have run := loadBlock_of_fits fit
    rw [run] at first
    obtain ⟨n, loaded, onward⟩ := ih (first.data.layout_eq.symm ▸ others)
    refine ⟨n, first.trans loaded, fun rest => ?_⟩
    simp only [List.cons_append, loadBlocks, run, onward, Image.wordCount, List.map_cons,
      List.sum_cons]
    rcases n.loadBlocks rest with ⟨r, k⟩
    cases r with
    | error e => rfl
    | ok count => rw [Except.map, Except.map, Except.map, Nat.add_assoc]

theorem loadBlocks_of_fits (fits : ∀ b ∈ blocks, b.Fits m.memory.layout.rom) :
    ∃ n, m.loadBlocks blocks = (.ok (Image.wordCount blocks), n) ∧ Loaded blocks m n := by
  obtain ⟨n, loaded, onward⟩ := loadBlocks_append fits
  refine ⟨n, ?_, loaded⟩
  rw [← List.append_nil blocks, onward, List.append_nil]
  rfl

end Machine

open Machine

/-- An image that cannot be read does nothing. One whose blocks all fit is loaded and its words are
counted: each cell of program memory has the word of the last block that covers it. Otherwise the
first block that does not fit is reported, and what has happened is the same as if the image had
ended in front of it. Nothing but program memory changes. -/
theorem images_load_up_to_first_misfit (m : Machine) (bytes : List UInt8) :
    (∀ e, Image.parse bytes = .error e → m.load bytes = (.error e, m)) ∧
    ∀ blocks, Image.parse bytes = .ok blocks →
      let size := m.memory.layout.rom
      ((∀ b ∈ blocks, b.Fits size) →
        ∃ n, m.load bytes = (.ok (Image.wordCount blocks), n) ∧ Loaded blocks m n) ∧
      ∀ front b rest, blocks = front ++ b :: rest → (∀ x ∈ front, x.Fits size) →
        ¬ b.Fits size →
        ∃ n, m.load bytes = (.error (.outsideRom b.offset b.words.length size), n) ∧
          Loaded front m n ∧
          m.load (Image.toBytes front) = (.ok (Image.wordCount front), n) := by
  refine ⟨fun e h => by rw [load, h], fun blocks h => ?_⟩
  intro size
  have run : m.load bytes = m.loadBlocks blocks := by rw [load, h]
  refine ⟨fun fits => run ▸ loadBlocks_of_fits fits, ?_⟩
  rintro front b rest rfl fits misfit
  obtain ⟨n, loaded, onward⟩ := loadBlocks_append fits
  have layout := loaded.data.layout_eq
  have refused : n.loadBlocks (b :: rest) =
      (.error (.outsideRom b.offset b.words.length size), n) := by
    rw [loadBlocks, loadBlock_of_not_fits (layout.symm ▸ misfit), layout]
  refine ⟨n, ?_, loaded, ?_⟩
  · rw [run, onward, refused]
    rfl
  · -- the blocks in front can be written down, as they have been read
    have storable := ((Image.parse_eq_ok_iff _ _).1 h).1
    have read : Image.parse (Image.toBytes front) = .ok front :=
      (Image.parse_eq_ok_iff _ _).2 ⟨fun x hx => storable x (List.mem_append_left _ hx), rfl⟩
    rw [load, read]
    dsimp only
    rw [← List.append_nil front, onward, List.append_nil]
    rfl

/-- The second block covers a word of the first one, and the third does not fit. -/
theorem overlapping_blocks_load_up_to_misfit :
    let m := Machine.new ⟨8, 0, 0, 8, by decide⟩
    let bytes := Image.toBytes [⟨0, [1, 2, 3]⟩, ⟨1, [0x1FFF]⟩, ⟨7, [5, 6]⟩]
    (m.load bytes).1 = .error (.outsideRom 7 2 8) ∧
      [8, 9, 10, 15].map (m.load bytes).2.memory.word = [1, 0xFFF, 3, 0] ∧
      (m.load (Image.toBytes [⟨8, []⟩])).1 = .ok 0 ∧
      m.load [1, 2, 3] = (.error (.truncated 0), m) := by
  intro m bytes
  have start : m.memory.layout = ⟨8, 0, 0, 8, by decide⟩ := by decide +kernel
  have zero : ∀ a ∈ [8, 9, 10, 15], m.memory.word a = 0 := by decide +kernel
  have read : Image.parse bytes = .ok [⟨0, [1, 2, 3]⟩, ⟨1, [0x1FFF]⟩, ⟨7, [5, 6]⟩] :=
    (Image.parse_eq_ok_iff _ _).2 ⟨by decide, rfl⟩
  obtain ⟨n, run, loaded, -⟩ := (images_load_up_to_first_misfit m bytes).2 _ read |>.2
    [⟨0, [1, 2, 3]⟩, ⟨1, [0x1FFF]⟩] ⟨7, [5, 6]⟩ [] rfl (by decide +kernel) (by decide +kernel)
  have empty : Image.parse (Image.toBytes [⟨8, []⟩]) = .ok [⟨8, []⟩] :=
    (Image.parse_eq_ok_iff _ _).2 ⟨by decide, rfl⟩
  obtain ⟨k, none_loaded, -⟩ := (images_load_up_to_first_misfit m _).2 _ empty |>.1
    (by decide +kernel)
  have broken : Image.parse [1, 2, 3] = .error (.truncated 0) := by
    unfold Image.parse Image.blocksFrom
    rfl
  refine ⟨by rw [run]; rfl, ?_, by rw [none_loaded]; rfl,
    (images_load_up_to_first_misfit m _).1 _ broken⟩
  have program := loaded.program
  rw [start] at program
  rw [run]
  have at0 : n.memory.word 8 = 1 := program 0 (by decide)
  have at1 : n.memory.word 9 = 0xFFF := program 1 (by decide)
  have at2 : n.memory.word 10 = 3 := program 2 (by decide)
  have at7 : n.memory.word 15 = 0 := (program 7 (by decide)).trans (zero 15 (by decide))
  simp only [List.map_cons, List.map_nil, at0, at1, at2, at7]

end TwelveBit
