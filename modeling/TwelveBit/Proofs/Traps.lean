import TwelveBit.Proofs.DecodingOutcome
import TwelveBit.Proofs.Failures
import TwelveBit.Proofs.Frames
import TwelveBit.Proofs.ProgramMemory
import TwelveBit.Proofs.Tally
/-!
Traps. What a trap says is so: the machine that was about to do what trapped bears it out. What had
been done until then is kept, and nothing is left of what trapped but what it did to the stack.
-/
namespace TwelveBit
open Cpu

def Machine.BearsOut (k : Machine) : Fault → Prop
  | .unknownOpcode op =>
    k.memory.read (toLong k.pc) = .ok op ∧ ∀ o : Opcode, o.number ≠ op
  | .unknownJumpMode mode =>
    k.memory.read (toLong k.pc) = .ok Opcode.jump.number ∧
      k.memory.read (toLong (k.pc + 1)) = .ok mode ∧ 17 < mode
  | .romWrite a => k.memory.layout.romBase ≤ a ∧ a < k.memory.layout.total
  | .outOfRange a => k.memory.layout.total ≤ a
  | .divideByZero => ∃ op w c, (op = .div ∨ op = .mod) ∧
      Instruction.fetched k.fetch = .ok (.plain (.alu (.binary op w))) ∧
      (popAt w).run k.toCpu = .ok 0 c

namespace Machine
variable {σ : Type} {h : Host σ} {m m' k : Machine} {s s' u : σ} {a : Activity} {t : Trap}
  {f : Fault}

theorem bearsOut_of_misses (hf : f.Misses k.memory.layout) : k.BearsOut f := by
  cases f with
  | romWrite | outOfRange => exact hf
  | unknownOpcode | unknownJumpMode | divideByZero => exact hf.elim

theorem bearsOut_of_undecodable (hf : Instruction.Undecodable k.fetch f) : k.BearsOut f := by
  cases hf with
  | opcode hop hn => exact ⟨hop, hn⟩
  | mode hop hmode hn => exact ⟨hop, hmode, hn⟩
  | @word j f hw =>
    have hread : k.memory.read (toLong (k.pc + j)) = .error f := hw
    unfold Memory.read at hread
    split at hread
    · cases hread
    · cases hread
      exact Nat.not_lt.mp ‹_›

theorem lt_of_popAt {w : Width} {c d : Cpu} {v : Nat} (hm : c.memory.Masked)
    (hv : (popAt w).run c = .ok v d) : v < w.size := by
  cases w with
  | word =>
    rw [(ok_of_pop hv).1]
    exact hm _
  | long => exact yields_popLong _ _ _ hv

/-- The divisor is zero, and not only its low bits. -/
theorem bearsOut_of_divides {i : Instruction} (hm : k.memory.Masked)
    (hi : Instruction.fetched k.fetch = .ok i) (hd : i.Divides k.toCpu) :
    k.BearsOut .divideByZero := by
  obtain ⟨op, w, b, c, hop, rfl, hb, hz⟩ := hd
  have hzero : b = 0 := (Nat.mod_eq_of_lt (lt_of_popAt hm hb)).symm.trans hz
  rw [hzero] at hb
  exact ⟨op, w, c, hop, hi, hb⟩

theorem Traps.bearsOut (hm : k.memory.Masked) (ht : Traps h m s a k u t m' s') :
    k.BearsOut t.fault := by
  cases ht with
  | delivery taken source fault =>
    exact bearsOut_of_misses (blames_misses.interrupt _ _ _ _ _ fault)
  | fetch ready fault => exact bearsOut_of_undecodable (Instruction.undecodable_of_fetched fault)
  | execution ready fetched fault =>
    obtain hf | ⟨hf, hd⟩ := (Instruction.failed_of_run fault).reason
    · exact bearsOut_of_misses hf
    · show k.BearsOut _
      rw [hf]
      exact bearsOut_of_divides hm fetched hd

theorem Traps.start_pc (ht : Traps h m s a k u t m' s') : t.pc = k.pc := by
  cases ht <;> rfl

/-- A delivery that fails has no other reason than its pushes, and the program counter is still
where the interrupt struck. -/
theorem Traps.of_delivery {irq : Interrupt} (ht : Traps h m s (.delivery irq) k u t m' s') :
    t.pc = m.pc ∧ t.fault.Misses m.memory.layout := by
  cases ht with
  | delivery taken source fault =>
    cases taken
    exact ⟨rfl, blames_misses.interrupt _ _ _ _ _ fault⟩

end Machine

open Machine

/-- Every trap tells the truth about the machine that was about to do what trapped, at the address
it names; where this was the delivery of an interrupt, the address is the one at which the
interrupt struck, and the fault is about a push. A machine that was left waiting does not trap when
it goes on. -/
theorem traps_tell_the_truth :
    (∀ {σ : Type} (h : Host σ) (m m' : Machine) (s s' : σ) (t : Trap), m.memory.Masked →
      m.step h s = (some (.trap t), m', s') →
      ∃ a k u, Traps h m s a k u t m' s' ∧ t.pc = k.pc ∧
        k.memory.layout = m.memory.layout ∧ k.BearsOut t.fault ∧
        ∀ irq, a = .delivery irq → t.pc = m.pc ∧ t.fault.Misses m.memory.layout) ∧
    ∀ {σ : Type} (h : Host σ) (m : Machine) (s : σ) (t : Trap),
      (m.wake h s).1 ≠ some (.trap t) := by
  refine ⟨fun h m m' s s' t hm ht => ?_, fun h m s t ht => (rests_of_wake ht).elim⟩
  obtain ⟨a, k, u, hk⟩ := traps_of_step ht
  have hs : StaysMasked m.memory k.memory := staysMasked_writing.stable.traps h hk
  refine ⟨a, k, u, hk, hk.start_pc, hs.1, hk.bearsOut (hs.2 hm), ?_⟩
  rintro irq rfl
  exact hk.of_delivery

/-- Five is pushed, then zero; the division traps at its own address. -/
theorem division_by_zero_tells_the_truth :
    let l : Layout := ⟨16, 0, 0, 16, by decide⟩
    let ops : List Operation :=
      [.loadRom 0 [0x010, 5, 0x010, 0, 0x054], .reset 16, .step Host.idle (), .step Host.idle ()]
    let m := Operation.applyAll ops (Machine.new l)
    let m' := (m.step Host.idle ()).2.1
    m.memory.Masked ∧ m.step Host.idle () = (some (.trap ⟨20, .divideByZero⟩), m', ()) ∧
      ∃ (k : Machine) (op : BinaryOp) (w : Width) (c : Cpu),
        Instruction.fetched k.fetch = .ok (.plain (.alu (.binary op w))) ∧ k.pc = 20 ∧
          (popAt w).run k.toCpu = .ok 0 c := by
  intro l ops m m'
  have wf : WellFormed l m.toCpu := by
    unfold m
    exact (WellFormed.new l).applyAll ops
  have hm : m.memory.Masked := wf.masked
  have hstop : (m.step Host.idle ()).1 = some (.trap ⟨20, .divideByZero⟩) := by decide +kernel
  have ht : m.step Host.idle () = (some (.trap ⟨20, .divideByZero⟩), m', ()) := by
    rw [← hstop]
  obtain ⟨a, k, u, -, hpc, -, ⟨op, w, c, -, hi, hz⟩, -⟩ :=
    traps_tell_the_truth.1 Host.idle m m' () () _ hm ht
  exact ⟨hm, ht, k, op, w, c, hi, hpc.symm, hz⟩

namespace Machine
variable {σ : Type} {h : Host σ} {m m' k : Machine} {s s' u : σ} {a : Activity} {t : Trap}

theorem Traps.count_eq (ht : Traps h m s a k u t m' s') : m'.instructions = m.instructions := by
  cases ht with
  | delivery taken source fault =>
    cases taken
    rfl
  | fetch ready fault => exact count_of_ready ready
  | execution ready fetched fault =>
    have hk := count_of_ready ready
    exact hk

/-- The instruction at fault is not told to have been executed, and neither is another one. -/
theorem unexecuted_of_step (ht : m.step h s = (some (.trap t), m', s')) (i : Instruction) :
    Happening.told (.executed i) ∉ m.stepHistory h s := by
  obtain ⟨a, k, u, hk⟩ := traps_of_step ht
  have tally := (attests_tallied h).step m s
  rw [ht] at tally
  exact tally.unexecuted hk.count_eq i

structure Spared (a : Activity) (f : Fault) (k m' : Machine) : Prop where
  pc_eq : m'.pc = k.pc
  carry_eq : m'.carry = k.carry
  halted_eq : m'.halted = k.halted
  instructions_eq : m'.instructions = k.instructions
  interrupts_eq : m'.interrupts = k.interrupts
  line_eq : m'.line = k.line
  program : SameProgram k.memory m'.memory
  fp_eq : m'.fp = k.fp ∨ ∃ i, a = .execution i ∧ i.Drops k.toCpu f m'.toCpu
  memory_eq : (∃ i, a = .execution i ∧ i.Stores) ∨ f = .divideByZero → m'.memory = k.memory

theorem Traps.spared (ht : Traps h m s a k u t m' s') : Spared a t.fault k m' := by
  cases ht with
  | @delivery irq k u f c taken source fault =>
    have hr : SameRegisters k.toCpu c := blames_registers.interrupt _ _ _ _ _ fault
    have hp : SameProgram k.memory c.memory :=
      (sameProgram_writing.stable.interrupt irq k.pc).fails _ _ _ fault
    have hmiss : f.Misses k.memory.layout := blames_misses.interrupt _ _ _ _ _ fault
    refine ⟨rfl, (congrArg Prod.snd hr).symm, rfl, rfl, rfl, rfl, hp,
      Or.inl (congrArg Prod.fst hr).symm, ?_⟩
    -- a delivery carries no instruction out and divides nothing
    rintro (⟨i, ha, -⟩ | rfl)
    · cases ha
    · exact hmiss.elim
  | fetch ready fault =>
    exact ⟨rfl, rfl, rfl, rfl, rfl, rfl, Std.Refl.refl (r := SameProgram) _, Or.inl rfl,
      fun _ => rfl⟩
  | @execution k u i f c ready fetched fault =>
    have hi := Instruction.failed_of_run fault
    have hp : SameProgram k.memory c.memory :=
      (sameProgram_writing.stable.instruction _ i).fails _ _ _ fault
    refine ⟨rfl, hi.carry_eq, rfl, rfl, rfl, rfl, hp, hi.fp_eq.imp_right fun hd => ⟨i, rfl, hd⟩, ?_⟩
    rintro (⟨j, ha, hj⟩ | hf)
    · cases ha
      exact hi.memory_eq (Or.inl hj)
    · exact hi.memory_eq (Or.inr hf)

end Machine

/-- A trap leaves the machine at the address it names, and tells of no instruction that was
executed. The machine that was about to do what trapped keeps its carry, its counts, its line and
all of program memory; it keeps its frame unless a return had dropped that and only its value could
not be pushed, and all of memory where the instruction only stores or divides by zero. -/
theorem traps_keep_what_was_done {σ : Type} {h : Host σ} {m m' : Machine} {s s' : σ} {t : Trap}
    (ht : m.step h s = (some (.trap t), m', s')) :
    m'.pc = t.pc ∧ (∀ i, Happening.told (.executed i) ∉ m.stepHistory h s) ∧
      ∃ a k u, Traps h m s a k u t m' s' ∧ Spared a t.fault k m' := by
  obtain ⟨a, k, u, hk⟩ := traps_of_step ht
  exact ⟨hk.pc_eq.symm, unexecuted_of_step ht, a, k, u, hk, hk.spared⟩

/-- Five is pushed, and then it should be stored in program memory. -/
theorem refused_store_keeps_what_was_done :
    let ops : List Operation :=
      [.loadRom 0 [0x010, 5, 0x022, 0, 16], .reset 16, .step Host.idle ()]
    let m := Operation.applyAll ops (Machine.new ⟨16, 0, 0, 16, by decide⟩)
    let m' := (m.step Host.idle ()).2.1
    m.step Host.idle () = (some (.trap ⟨18, .romWrite 16⟩), m', ()) ∧ m'.pc = 18 ∧
      ∃ a k u, Traps Host.idle m () a k u ⟨18, .romWrite 16⟩ m' () ∧
        Spared a (.romWrite 16) k m' := by
  intro ops m m'
  have hstop : (m.step Host.idle ()).1 = some (.trap ⟨18, .romWrite 16⟩) := by decide +kernel
  have ht : m.step Host.idle () = (some (.trap ⟨18, .romWrite 16⟩), m', ()) := by
    rw [← hstop]
  obtain ⟨hpc, -, hk⟩ := traps_keep_what_was_done ht
  exact ⟨ht, hpc, hk⟩

end TwelveBit
