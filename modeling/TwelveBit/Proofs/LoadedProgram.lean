import TwelveBit.Proofs.Encoding
import TwelveBit.Proofs.ImageLoading
import TwelveBit.Proofs.WellFormed
/-!
Programs from their encoding to the machine that runs them. What an image with one block puts into
program memory stands there word by word, so wherever an instruction of the program starts, the
machine fetches this instruction.
-/
namespace TwelveBit

namespace Memory

structure Holds (m : Memory) (a : Nat) (ws : List Nat) : Prop where
  le_total : a + ws.length ≤ m.layout.total
  word_eq : ∀ i w, ws[i]? = some w → m.word (a + i) = w

theorem holds_putAll {vs : List Nat} (hv : ∀ v ∈ vs, v < 0x1000) {a : Nat} {m : Memory}
    (hfit : a + vs.length ≤ m.layout.total) : (putAll vs a m).Holds a vs where
  le_total := (agree_putAll vs a m).layout_eq ▸ hfit
  word_eq _ _ h := (word_putAll hfit h).trans (toWord_of_lt (hv _ (List.mem_of_getElem? h)))

theorem Holds.of_agree {P : Nat → Prop} {m n : Memory} {a : Nat} {ws : List Nat}
    (h : m.Holds a ws) (hs : Agree P m n) (hp : ∀ b, a ≤ b → P b) : n.Holds a ws where
  le_total := hs.layout_eq ▸ h.le_total
  word_eq i w hw := (hs.word_eq _ (hp _ (Nat.le_add_right a i))).trans (h.word_eq i w hw)

/-- The part of a row that stands behind another part. -/
theorem Holds.middle {m : Memory} {a : Nat} {front ws rest : List Nat}
    (h : m.Holds a (front ++ (ws ++ rest))) : m.Holds (a + front.length) ws where
  le_total := by
    have := h.le_total
    simp only [List.length_append] at this
    omega
  word_eq i w hw := by
    rw [Nat.add_assoc]
    exact h.word_eq _ w (Instruction.getElem?_middle front rest hw)

end Memory

namespace Instruction

theorem length_encodeAll (is : List Instruction) :
    (encodeAll is).length = (is.map size).sum := by
  simp only [encodeAll, List.length_flatMap, length_encode]

/-- The words of the `k`-th instruction, between those of the instructions around it. -/
theorem encodeAll_split {is : List Instruction} {k : Nat} (hk : k < is.length) :
    encodeAll is = encodeAll (is.take k) ++ (is[k].encode ++ encodeAll (is.drop (k + 1))) := by
  have hsplit : is = is.take k ++ is[k] :: is.drop (k + 1) := by
    rw [List.getElem_cons_drop, List.take_append_drop]
  conv_lhs => rw [hsplit]
  simp only [encodeAll, List.flatMap_append, List.flatMap_cons]

theorem encodeAll_lt (is : List Instruction) : ∀ w ∈ encodeAll is, w < 0x1000 := by
  intro w hw
  obtain ⟨i, -, hi⟩ := List.mem_flatMap.1 hw
  exact encode_lt i w hi

theorem fetched_of_shows {fetch : Fetch} {i : Instruction} (hi : i.Canonical)
    (h : Shows fetch i.encode) : fetched fetch = .ok i := by
  rw [fetched_eq, run_decode hi h]

end Instruction

namespace Machine
open Instruction

theorem shows_of_holds {m : Machine} {ws : List Nat} (h : m.memory.Holds m.pc ws) :
    Shows m.fetch ws := by
  intro i w hw
  have hi := (List.getElem?_eq_some_iff.1 hw).1
  have hfit := h.le_total
  have hspace := m.memory.layout.total_le_space
  rw [fetch, toLong_of_lt (by omega), Memory.read, if_pos (by omega), h.word_eq i w hw]

/-- Loading an image of one block whose words fit puts them where the block says. -/
theorem load_block {m : Machine} {o : Nat} {ws : List Nat} (hw : ∀ w ∈ ws, w < 0x1000)
    (hfit : o + ws.length ≤ m.memory.layout.rom) :
    m.load (Image.toBytes [⟨o, ws⟩]) =
      (.ok ws.length,
        { m with memory := Memory.putAll ws (m.memory.layout.romBase + o) m.memory }) := by
  have hbase := m.memory.layout.romBase_add_rom
  have hspace := m.memory.layout.total_le_space
  have storable : Block.Storable ⟨o, ws⟩ := by
    refine ⟨?_, ?_, fun w h => Nat.lt_trans (hw w h) (by decide), ?_⟩ <;> dsimp only <;> omega
  have hparse := (Image.parse_eq_ok_iff _ _).2
    ⟨fun b hb => List.mem_singleton.1 hb ▸ storable, rfl⟩
  have hfits : Block.Fits m.memory.layout.rom ⟨o, ws⟩ :=
    ⟨Int.natCast_nonneg o, by dsimp only; omega⟩
  rw [load, hparse]
  simp only [loadBlocks, loadBlock_of_fits hfits, Int.toNat_natCast]
  rfl

/-- The words of an image of one block stand in program memory until something else is loaded. -/
theorem holds_of_load {m : Machine} {o : Nat} {ws : List Nat} (hw : ∀ w ∈ ws, w < 0x1000)
    (hfit : o + ws.length ≤ m.memory.layout.rom) {ops : List Operation}
    (hops : ∀ op ∈ ops, ¬ op.Loads) :
    (Operation.applyAll ops (m.load (Image.toBytes [⟨o, ws⟩])).2).memory.Holds
      (m.memory.layout.romBase + o) ws := by
  have hbase := m.memory.layout.romBase_add_rom
  rw [load_block hw hfit]
  generalize hn : Memory.putAll ws (m.memory.layout.romBase + o) m.memory = n
  have hlayout : n.layout = m.memory.layout := by
    rw [← hn]
    exact (Memory.agree_putAll _ _ _).layout_eq
  have there : n.Holds (m.memory.layout.romBase + o) ws := by
    rw [← hn]
    exact Memory.holds_putAll hw (by omega)
  have same : SameProgram n (Operation.applyAll ops { m with memory := n }).memory :=
    sameProgram_lasting.applyAll (fun op hop hload => absurd hload (hops op hop))
      { m with memory := n }
  exact there.of_agree same fun b hb => hlayout ▸ Nat.le_trans (Nat.le_add_right _ _) hb

end Machine

open Instruction

/-- A program that is encoded, written as an image and loaded into a new machine is counted as the
sum of its sizes. Whatever happens to the machine short of loading something else, wherever an
instruction of the program starts the machine fetches this instruction, and asks for no word but
those of it. -/
theorem loaded_program_is_fetched (l : Layout) {is : List Instruction} {o : Nat}
    (hc : ∀ i ∈ is, i.Canonical) (hfit : o + (encodeAll is).length ≤ l.rom) :
    let loaded := (Machine.new l).load (Image.toBytes [⟨o, encodeAll is⟩])
    loaded.1 = .ok (is.map size).sum ∧
      ∀ ops : List Operation, (∀ op ∈ ops, ¬ op.Loads) → ∀ k (hk : k < is.length),
        let m : Machine := { Operation.applyAll ops loaded.2 with
          pc := l.romBase + o + ((is.take k).map size).sum }
        fetched m.fetch = .ok is[k] ∧
          (decode m.fetch).run [] = .ok is[k] (List.range is[k].size) := by
  intro loaded
  have hl : (Machine.new l).memory.layout = l := (WellFormed.new l).layout_eq
  have hfit' : o + (encodeAll is).length ≤ (Machine.new l).memory.layout.rom := hl.symm ▸ hfit
  have hload : loaded = _ := Machine.load_block (encodeAll_lt is) hfit'
  refine ⟨by rw [hload, length_encodeAll], ?_⟩
  intro ops hops k hk m
  have program : m.memory.Holds (l.romBase + o) (encodeAll is) := by
    have := Machine.holds_of_load (encodeAll_lt is) hfit' hops
    rwa [hl] at this
  rw [encodeAll_split hk] at program
  have shown : Shows m.fetch is[k].encode := by
    refine Machine.shows_of_holds ?_
    have := program.middle
    rwa [length_encodeAll] at this
  have canonical := hc _ (List.getElem_mem hk)
  exact ⟨fetched_of_shows canonical shown, run_decode canonical shown⟩

/-- A program of seven words starts behind the first word of program memory. It is still fetched
after a host has tried to overwrite it and it has started to run. -/
theorem program_is_fetched_while_it_runs :
    let l : Layout := ⟨8, 0, 0, 8, by decide⟩
    let is : List Instruction := [.word .push 0xABC, .jump .relative, .long .call 0xABCDEF]
    let loaded := (Machine.new l).load (Image.toBytes [⟨1, encodeAll is⟩])
    let ops : List Operation := [.write 9 0, .copy 0 9 7, .reset 9, .step Host.idle ()]
    loaded.1 = .ok 7 ∧ ∀ k (hk : k < is.length),
      fetched { Operation.applyAll ops loaded.2 with pc := [9, 11, 13][k] }.fetch = .ok is[k] := by
  intro l is loaded ops
  have hc : ∀ i ∈ is, i.Canonical := by decide
  obtain ⟨hcount, hfetch⟩ := loaded_program_is_fetched l (o := 1) hc (by decide)
  have hloads : ∀ op ∈ ops, ¬ op.Loads := by simp [ops, Operation.Loads]
  refine ⟨hcount, fun k hk => ?_⟩
  have hstart : ∀ k : Fin 3, l.romBase + 1 + ((is.take k).map size).sum = [9, 11, 13][k] := by
    decide
  have hk' := (hfetch ops hloads k hk).1
  rwa [hstart ⟨k, hk⟩] at hk'

end TwelveBit
