import TwelveBit.Proofs.Operation
import TwelveBit.Proofs.Transition
/-!
Well-formed machines: one layout for ever, words of 12 bits, pointers of 24. A machine is well
formed when it is new, and nothing that can be done to it changes that.
-/
namespace TwelveBit
open Memory

structure WellFormed (l : Layout) (c : Cpu) : Prop where
  layout_eq : c.memory.layout = l
  masked : c.memory.Masked
  sp_lt : c.sp < 0x1000000
  fp_lt : c.fp < 0x1000000
  highWater_lt : c.highWater < 0x1000000

def StaysWellFormed (l : Layout) (c c' : Cpu) : Prop := WellFormed l c → WellFormed l c'

instance (l : Layout) : IsPreorder Cpu (StaysWellFormed l) where
  refl _ := id
  trans _ _ _ h h' := h' ∘ h

def StaysMasked (m n : Memory) : Prop := n.layout = m.layout ∧ (m.Masked → n.Masked)

instance : IsPreorder Memory StaysMasked where
  refl _ := ⟨rfl, id⟩
  trans _ _ _ h h' := ⟨h'.1.trans h.1, h'.2 ∘ h.2⟩

theorem staysMasked_writing : AllowsWriting StaysMasked :=
  fun _ a _ _ hv => ⟨rfl, fun hm => hm.set a hv⟩

theorem staysMasked_filling : AllowsFilling StaysMasked :=
  fun _ a _ _ hv => ⟨rfl, fun hm => hm.set a (Or.inl hv)⟩

namespace WellFormed
variable {l : Layout} {c : Cpu}

theorem withMemory (h : WellFormed l c) {m : Memory} (hm : StaysMasked c.memory m) :
    WellFormed l { c with memory := m } :=
  { h with layout_eq := hm.1.trans h.layout_eq, masked := hm.2 h.masked }

theorem onMemory {x : Memory.Action Unit} (hx : Keeps StaysMasked x) :
    Keeps (StaysWellFormed l) (Cpu.onMemory x) := by
  intro c h
  rw [Cpu.leftBehind_onMemory]
  exact h.withMemory (hx c.memory)

theorem push (v : Nat) : Keeps (StaysWellFormed l) (Cpu.push v) := by
  intro c h
  rw [Cpu.run_push]
  cases hr : c.memory.refusal? (next c.sp) with
  | some f => exact h
  | none =>
    have hm : StaysMasked c.memory (c.memory.put (next c.sp) v) := staysMasked_writing.put v hr
    have hs : next c.sp < 0x1000000 := toLong_lt _
    exact
      { h.withMemory hm with
        sp_lt := hs
        highWater_lt := Nat.max_lt.2 ⟨h.highWater_lt, hs⟩ }

theorem lasting : Lasting (StaysWellFormed l) where
  push := push
  write a v := onMemory (staysMasked_writing.write a v)
  writeLong a v := onMemory (staysMasked_writing.writeLong a v)
  copy src dst len := onMemory (staysMasked_writing.copy src dst len)
  sp _ _ ha h := { h with sp_lt := ha }
  fp _ _ ha h := { h with fp_lt := ha }
  carry _ _ h := { h with }
  clear c h := h.withMemory (staysMasked_writing.clearWritable c.memory)
  forget _ h := { h with highWater_lt := Nat.succ_pos _ }

theorem loading : AllowsLoading (StaysWellFormed l) :=
  fun offset words c h => h.withMemory (staysMasked_filling.loadRom offset words c.memory)

theorem new (l : Layout) : WellFormed l (Machine.new l).toCpu := by
  have hz : 0 < 0x1000000 := Nat.succ_pos _
  have blank : WellFormed l ⟨Memory.zero l, 0, 0, false, 0⟩ := ⟨rfl, masked_zero l, hz, hz, hz⟩
  exact lasting.reset _ ⟨_, 0, false, {}, 0, 0⟩ blank

theorem applyAll {m : Machine} (h : WellFormed l m.toCpu) (ops : List Operation) :
    WellFormed l (Operation.applyAll ops m).toCpu :=
  lasting.applyAll (fun _ _ _ => loading) m h

end WellFormed

theorem wellFormed_of_executes {l : Layout} {m k : Machine} {i : Instruction}
    (h : WellFormed l m.toCpu) (hr : m.Executes i k) : WellFormed l k.toCpu := by
  obtain ⟨σ, host, s, s', hx⟩ := hr
  have hk := WellFormed.lasting.toStable.execute (R := StaysWellFormed l) host i (m, s)
  rw [hx] at hk
  exact hk h

theorem masked_of_executes {m k : Machine} {i : Instruction} (h : m.memory.Masked)
    (hr : m.Executes i k) : k.memory.Masked := by
  obtain ⟨σ, host, s, s', hx⟩ := hr
  have hk := staysMasked_writing.stable.execute host i (m, s)
  rw [hx] at hk
  exact hk.2 h

theorem wellFormed_of_delivers {l : Layout} {m k : Machine} {irq : Interrupt}
    (h : WellFormed l m.toCpu) (hr : m.Delivers irq k) : WellFormed l k.toCpu := by
  have hk := WellFormed.lasting.toStable.interrupt (R := StaysWellFormed l) irq m.pc m.toCpu
  rw [hr.enters] at hk
  exact hk h

/-- Whatever is done to a machine, and whatever comes of it: the layout stays, memory has one
word for each of its addresses, every word has 12 bits and every pointer 24. -/
theorem well_formed_after_operations (l : Layout) (ops : List Operation) :
    let m := Operation.applyAll ops (Machine.new l)
    m.memory.layout = l ∧ m.memory.words.size = l.total ∧
      (∀ w ∈ m.memory.words, w < 0x1000) ∧
      m.sp < 0x1000000 ∧ m.fp < 0x1000000 ∧ m.highWater < 0x1000000 := by
  intro m
  have h : WellFormed l m.toCpu := (WellFormed.new l).applyAll ops
  have hsize : m.memory.words.size = l.total := by rw [m.memory.size_words, h.layout_eq]
  refine ⟨h.layout_eq, hsize, fun w hw => ?_, h.sp_lt, h.fp_lt, h.highWater_lt⟩
  obtain ⟨a, ha, rfl⟩ := Array.mem_iff_getElem.1 hw
  have hb := h.masked a
  simpa [Memory.word, ha] using hb

end TwelveBit
