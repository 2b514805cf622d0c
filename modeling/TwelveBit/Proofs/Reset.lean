import TwelveBit.Proofs.Conservation
import TwelveBit.Proofs.ProgramMemory
/-!
Resets. A reset forgets all of a machine but program memory, so two machines with the same program
are the same machine after it. What was loaded decides alone which program that is, whatever else
has been done, and loading does not depend on what a reset forgets.
-/
namespace TwelveBit

namespace Memory
variable {m n : Memory}

theorem word_zeroBelow {a : Nat} (ha : a ≤ m.layout.total) (b : Nat) :
    (zeroBelow a m).word b = if b < a then 0 else m.word b := by
  induction a generalizing m with
  | zero => exact (if_neg (Nat.not_lt_zero b)).symm
  | succ a ih =>
    rw [zeroBelow, ih (by rw [layout_set]; omega), word_set]
    by_cases hb : b = a
    · subst hb
      simp [Nat.lt_of_succ_le ha]
    · simp only [hb, false_and, if_false]
      by_cases hlt : b < a
      · rw [if_pos hlt, if_pos (Nat.lt_succ_of_lt hlt)]
      · rw [if_neg hlt, if_neg (by omega)]

theorem word_clearWritable (m : Memory) (a : Nat) :
    m.clearWritable.word a = if a < m.layout.romBase then 0 else m.word a :=
  word_zeroBelow m.layout.romBase_le_total a

theorem layout_clearWritable (m : Memory) : m.clearWritable.layout = m.layout :=
  (sameProgram_writing.clearWritable m).layout_eq

theorem clearWritable_eq_self (h : ∀ a < m.layout.romBase, m.word a = 0) : m.clearWritable = m := by
  refine ext_word m.layout_clearWritable fun a _ => ?_
  rw [word_clearWritable]
  by_cases ha : a < m.layout.romBase
  · rw [if_pos ha, h a ha]
  · rw [if_neg ha]

theorem Agree.symm {P : Nat → Prop} (h : Agree P m n) : Agree P n m :=
  ⟨h.layout_eq.symm, fun a ha => (h.word_eq a ha).symm⟩

/-- The same store on both sides makes no difference. -/
theorem Agree.put {P : Nat → Prop} (h : Agree P m n) (a v : Nat) :
    Agree P (m.put a v) (n.put a v) where
  layout_eq := h.layout_eq
  word_eq b hb := by rw [word_put, word_put, h.layout_eq, h.word_eq b hb]

theorem Agree.putAll {P : Nat → Prop} (h : Agree P m n) (vs : List Nat) (a : Nat) :
    Agree P (putAll vs a m) (putAll vs a n) := by
  induction vs generalizing a m n with
  | nil => exact h
  | cons v vs ih => exact ih (h.put a v) (a + 1)

end Memory

open Memory

namespace SameProgram
variable {m n : Memory}

theorem symm (h : SameProgram m n) : SameProgram n m := by
  have hl := h.layout_eq
  unfold SameProgram SameWhere at h ⊢
  rw [hl]
  exact Agree.symm h

theorem clearWritable_eq (h : SameProgram m n) : m.clearWritable = n.clearWritable := by
  have hl : n.layout = m.layout := h.layout_eq
  refine ext_word (by rw [layout_clearWritable, layout_clearWritable, hl]) fun a _ => ?_
  rw [word_clearWritable, word_clearWritable, hl]
  by_cases ha : a < m.layout.romBase
  · rw [if_pos ha, if_pos ha]
  · rw [if_neg ha, if_neg ha, h.word_eq a (Nat.not_lt.1 ha)]

end SameProgram

namespace Machine
variable {m k : Machine}

/-- Loading comes to the same on machines with the same program, and leaves them with the same
program. -/
theorem loadRom_of_sameProgram (h : SameProgram m.memory k.memory) (offset : Int)
    (words : List Nat) :
    (m.onMemory (loadRom offset words)).1 = (k.onMemory (loadRom offset words)).1 ∧
      SameProgram (m.onMemory (loadRom offset words)).2.memory
        (k.onMemory (loadRom offset words)).2.memory := by
  have hl : k.memory.layout = m.memory.layout := h.layout_eq
  rw [onMemory_eq, onMemory_eq, run_loadRom, run_loadRom, hl]
  by_cases hfit : 0 ≤ offset ∧ offset + words.length ≤ m.memory.layout.rom
  · rw [if_pos hfit, if_pos hfit]
    refine ⟨rfl, ?_⟩
    have hput := Agree.putAll h words (m.memory.layout.romBase + offset.toNat)
    have hkept : SameData m.memory (putAll words (m.memory.layout.romBase + offset.toNat) m.memory) :=
      sameData_filling.putAll words (Nat.le_add_right _ _)
    show Agree _ (putAll words _ m.memory) _
    rwa [hkept.layout_eq]
  · rw [if_neg hfit, if_neg hfit]
    exact ⟨rfl, h⟩

theorem loadBlocks_of_sameProgram (h : SameProgram m.memory k.memory) (bs : List Block) :
    (m.loadBlocks bs).1 = (k.loadBlocks bs).1 ∧
      SameProgram (m.loadBlocks bs).2.memory (k.loadBlocks bs).2.memory := by
  induction bs generalizing m k with
  | nil => exact ⟨rfl, h⟩
  | cons b bs ih =>
    obtain ⟨hr, hm⟩ : (m.loadBlock b).1 = (k.loadBlock b).1 ∧
        SameProgram (m.loadBlock b).2.memory (k.loadBlock b).2.memory :=
      loadRom_of_sameProgram h b.offset b.words
    unfold loadBlocks
    rcases hx : m.loadBlock b with ⟨r, m'⟩
    rcases hy : k.loadBlock b with ⟨r', k'⟩
    rw [hx, hy] at hr hm
    cases hr
    cases r with
    | error e => exact ⟨rfl, hm⟩
    | ok u =>
      obtain ⟨hrest, hm'⟩ := ih hm
      exact ⟨congrArg (Except.map _) hrest, hm'⟩

theorem load_of_sameProgram (h : SameProgram m.memory k.memory) (bytes : List UInt8) :
    (m.load bytes).1 = (k.load bytes).1 ∧
      SameProgram (m.load bytes).2.memory (k.load bytes).2.memory := by
  unfold load
  cases Image.parse bytes with
  | error e => exact ⟨rfl, h⟩
  | ok blocks => exact loadBlocks_of_sameProgram h blocks

theorem reset_of_sameProgram (h : SameProgram m.memory k.memory)
    (hc : m.line.closed = k.line.closed) (entry : Nat) : m.reset entry = k.reset entry := by
  simp only [reset, Line.reset, h.clearWritable_eq, hc]

theorem sameProgram_reset (m : Machine) (entry : Nat) :
    SameProgram m.memory (m.reset entry).memory :=
  sameProgram_writing.clearWritable m.memory

/-- It makes no difference whether an image is loaded before a reset or after it. -/
theorem load_reset (m : Machine) (bytes : List UInt8) (entry : Nat) :
    (m.reset entry).load bytes = ((m.load bytes).1, (m.load bytes).2.reset entry) := by
  obtain ⟨hr, hm⟩ := load_of_sameProgram (m.sameProgram_reset entry).symm bytes
  refine Prod.ext hr ?_
  obtain ⟨before, hb⟩ := load_snd bytes m
  obtain ⟨after, ha⟩ := load_snd bytes (m.reset entry)
  rw [hb, ha] at hm
  -- loading has left the words that were cleared alone
  have hclear : after.clearWritable = after := by
    have hdata : SameData m.memory.clearWritable after := by
      have := sameData_loads.load bytes (m.reset entry)
      rwa [ha] at this
    refine clearWritable_eq_self fun a hlt => ?_
    have hlow : a < m.memory.clearWritable.layout.romBase := hdata.layout_eq ▸ hlt
    rw [hdata.word_eq a hlow, word_clearWritable, if_pos (layout_clearWritable m.memory ▸ hlow)]
  have hsame : before.clearWritable = after := hm.clearWritable_eq.symm.trans hclear
  rw [ha, hb]
  simp only [reset, hsame]

end Machine

namespace Operation

instance : DecidablePred Loads
  | load _ | loadRom _ _ => isTrue trivial
  | reset _ | write _ _ | writeLong _ _ | copy _ _ _ | clearWritable | act _ | step _ _ | wake _ _ =>
    isFalse id

theorem line_apply_of_loads {op : Operation} (h : op.Loads) (m : Machine) :
    (op.apply m).line = m.line := by
  cases op with
  | load bytes =>
    obtain ⟨memory, hm⟩ := Machine.load_snd bytes m
    rw [apply, hm]
  | loadRom => rw [apply, Machine.onMemory_snd]
  | reset | write | writeLong | copy | clearWritable | act | step | wake => exact h.elim

theorem line_applyAll_of_loads {ops : List Operation} (h : ∀ op ∈ ops, op.Loads) (m : Machine) :
    (applyAll ops m).line = m.line := by
  induction ops generalizing m with
  | nil => rfl
  | cons op ops ih =>
    rw [applyAll, ih (fun o ho => h o (List.mem_cons_of_mem op ho)),
      line_apply_of_loads (h op List.mem_cons_self)]

theorem sameProgram_apply {op : Operation} (hop : op.Loads) {m k : Machine}
    (h : SameProgram m.memory k.memory) : SameProgram (op.apply m).memory (op.apply k).memory := by
  cases op with
  | load bytes => exact (Machine.load_of_sameProgram h bytes).2
  | loadRom offset words => exact (Machine.loadRom_of_sameProgram h offset words).2
  | reset | write | writeLong | copy | clearWritable | act | step | wake => exact hop.elim

/-- Of all that is done to a machine, only the loads matter for its program. -/
theorem sameProgram_applyAll_filter (ops : List Operation) {m k : Machine}
    (h : SameProgram m.memory k.memory) :
    SameProgram (applyAll ops m).memory (applyAll (ops.filter (·.Loads)) k).memory := by
  induction ops generalizing m k with
  | nil => exact h
  | cons op ops ih =>
    by_cases hop : op.Loads
    · rw [List.filter_cons_of_pos (by simpa using hop)]
      exact ih (sameProgram_apply hop h)
    · rw [List.filter_cons_of_neg (by simpa using hop)]
      have hkept : SameProgram m.memory (op.apply m).memory :=
        sameProgram_lasting.apply (fun hl => absurd hl hop) m
      exact ih (IsTrans.trans (r := SameProgram) _ _ _ hkept.symm h)

end Operation

/-- A reset forgets everything but the program. Whatever has been done to a machine, as long as
nobody has closed its line, after a reset it is the machine that has done nothing but load the same
things in the same order; so it goes on like that machine, whoever is around. And an image is
loaded after a reset as before it. -/
theorem reset_forgets_all_but_the_program :
    (∀ (l : Layout) (entry : Nat) (ops : List Operation),
      (Operation.applyAll ops (Machine.new l)).line.closed = false →
      let m := (Operation.applyAll ops (Machine.new l)).reset entry
      let k := (Operation.applyAll (ops.filter (·.Loads)) (Machine.new l)).reset entry
      m = k ∧
        (∀ {σ : Type} (h : Host σ) (n : Nat) (s : σ), m.run h n s = k.run h n s) ∧
        ∀ later : List Operation,
          Operation.recordAll later (.begin m) = Operation.recordAll later (.begin k)) ∧
    ∀ (m : Machine) (bytes : List UInt8) (entry : Nat),
      (m.reset entry).load bytes = ((m.load bytes).1, (m.load bytes).2.reset entry) := by
  refine ⟨?_, Machine.load_reset⟩
  intro l entry ops hopen m k
  have hprogram := Operation.sameProgram_applyAll_filter ops
    (Std.Refl.refl (r := SameProgram) (Machine.new l).memory)
  have hloads : ∀ op ∈ ops.filter (·.Loads), op.Loads :=
    fun op hop => of_decide_eq_true (List.mem_filter.1 hop).2
  -- loads alone never close the line, so both histories leave it open
  have hline := Operation.line_applyAll_of_loads hloads (Machine.new l)
  have hsame : m = k := Machine.reset_of_sameProgram hprogram (by rw [hopen, hline]; rfl) entry
  exact ⟨hsame, fun h n s => by rw [hsame], fun later => by rw [hsame]⟩

/-- Between two loads, the second of which fails, the machine has been written to, reset and woken
by an interrupt whose handler traps. -/
theorem reset_after_trap_in_handler :
    let l : Layout := ⟨16, 0, 0, 16, by decide⟩
    let ops : List Operation :=
      [.write 3 9, .loadRom 4 [0xFFF], .reset 20, .act (.setEnabled true), .act (.request .timer),
        .step Host.idle (), .loadRom 15 [1, 2]]
    let m := Operation.applyAll ops (Machine.new l)
    m.line.closed = false ∧ m.pc = 20 ∧ m.interrupts = 1 ∧
      m.reset 16 = (Operation.applyAll [.loadRom 4 [0xFFF], .loadRom 15 [1, 2]] (.new l)).reset 16 ∧
      (m.reset 16).load [1] = (.error (.truncated 0), (m.load [1]).2.reset 16) := by
  intro l ops m
  have hopen : (Operation.applyAll ops (Machine.new l)).line.closed = false := by decide +kernel
  have hloads : ops.filter (·.Loads) = [.loadRom 4 [0xFFF], .loadRom 15 [1, 2]] := rfl
  have hparse : Image.parse [1] = .error (.truncated 0) := by
    simp [Image.parse, Image.blocksFrom]
  obtain ⟨hreset, hload⟩ := reset_forgets_all_but_the_program
  have hsame := (hreset l 16 ops hopen).1
  rw [hloads] at hsame
  unfold m
  refine ⟨hopen, by decide +kernel, by decide +kernel, hsame, ?_⟩
  rw [hload _ [1] 16]
  refine Prod.ext ?_ rfl
  simp only [Machine.load, hparse]

end TwelveBit
