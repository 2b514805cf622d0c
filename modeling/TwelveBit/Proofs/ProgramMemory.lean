import TwelveBit.Proofs.Operation
/-!
Program memory. Nothing that runs on a machine changes it, and neither do a reset or the stores of
hosts, however each of them ends. Loading changes nothing else.
-/
namespace TwelveBit
open Memory

def SameWhere (P : Layout → Nat → Prop) (m n : Memory) : Prop := Agree (P m.layout) m n

instance (P : Layout → Nat → Prop) : IsPreorder Memory (SameWhere P) where
  refl m := Agree.refl _ m
  trans m n k h h' := by
    have hl := h.layout_eq
    unfold SameWhere at h h' ⊢
    rw [hl] at h'
    exact h.trans h'

abbrev SameProgram : Memory → Memory → Prop := SameWhere fun l a => l.romBase ≤ a

abbrev SameData : Memory → Memory → Prop := SameWhere fun l a => a < l.romBase

theorem sameProgram_writing : AllowsWriting SameProgram :=
  fun _ a v ha _ => Agree.set a v (Nat.not_le.2 ha)

theorem sameData_filling : AllowsFilling SameData :=
  fun _ a v ha _ => Agree.set a v (Nat.not_lt.2 ha)

theorem sameProgram_lasting : Lasting (InvImage SameProgram Cpu.memory) where
  toStable := sameProgram_writing.stable
  clear c := sameProgram_writing.clearWritable c.memory
  forget c := Std.Refl.refl (r := SameProgram) c.memory

theorem sameData_loads : AllowsLoading (InvImage SameData Cpu.memory) :=
  fun offset words c => sameData_filling.loadRom offset words c.memory

/-- Program memory changes only by loading, and loading changes nothing else: neither of them
depends on whether an operation succeeds. An instruction that fails has changed no word of program
memory on its way. -/
theorem program_memory_changes_only_by_loading (m : Machine) :
    (∀ ops : List Operation, (∀ op ∈ ops, ¬ op.Loads) →
      ∀ a, m.memory.layout.romBase ≤ a → a < m.memory.layout.total →
        (Operation.applyAll ops m).memory.word a = m.memory.word a) ∧
    (∀ bytes a, a < m.memory.layout.romBase → (m.load bytes).2.memory.word a = m.memory.word a) ∧
    (∀ offset words a, a < m.memory.layout.romBase →
      (m.onMemory (loadRom offset words)).2.memory.word a = m.memory.word a) ∧
    (∀ next i f c, (Instruction.run next i).run m.toCpu = .error f c →
      ∀ a, m.memory.layout.romBase ≤ a → a < m.memory.layout.total →
        c.memory.word a = m.memory.word a) := by
  refine ⟨fun ops hops a ha _ => ?_, fun bytes a ha => ?_, fun offset words a ha => ?_,
    fun next i f c hr a ha _ => ?_⟩
  · have hk := sameProgram_lasting.applyAll (fun op hop hl => absurd hl (hops op hop)) m
    exact hk.word_eq a ha
  · have hk := sameData_loads.load bytes m
    exact hk.word_eq a ha
  · have hk := sameData_loads.loadRom offset words m
    exact hk.word_eq a ha
  · have hk := sameProgram_writing.stable.instruction next i m.toCpu
    rw [hr] at hk
    exact hk.word_eq a ha

/-- A host writes onto the program, starts it again and lets it run. The program is still there,
and it is there after an instruction that fails. -/
theorem program_survives_writing :
    let m := Operation.applyAll [.loadRom 0 [5]] (Machine.new ⟨8, 0, 0, 8, by decide⟩)
    let ops : List Operation := [.write 8 7, .copy 0 8 1, .reset 0, .step Host.idle ()]
    m.memory.word 8 = 5 ∧ (Operation.applyAll ops m).memory.word 8 = 5 ∧
      ∀ f c, (Instruction.run 0 (.long (.store .word) 8)).run m.toCpu = .error f c →
        c.memory.word 8 = 5 := by
  intro m ops
  obtain ⟨hops, -, -, hfault⟩ := program_memory_changes_only_by_loading m
  have hword : m.memory.word 8 = 5 := by decide +kernel
  have hloads : ∀ op ∈ ops, ¬ op.Loads := by simp [ops, Operation.Loads]
  have hkept := hops ops hloads 8 (by decide +kernel) (by decide +kernel)
  refine ⟨hword, hkept.trans hword, fun f c hr => ?_⟩
  exact (hfault 0 _ f c hr 8 (by decide +kernel) (by decide +kernel)).trans hword

end TwelveBit
