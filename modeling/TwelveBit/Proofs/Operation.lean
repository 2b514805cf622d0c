import TwelveBit.Proofs.Stability
import TwelveBit.Proofs.MemoryChange
/-!
What can be done to a machine from outside. Programs are loaded, the machine is reset, hosts
write its memory and act on its line, and it takes steps; all in any order and whatever comes of
each of them.
-/
namespace TwelveBit

/-- One thing done to a machine. A step comes with the hosts that watch it, in any state. -/
inductive Operation : Type 1 where
  | load (bytes : List UInt8)
  | loadRom (offset : Int) (words : List Nat)
  | reset (entry : Nat)
  | write (a v : Nat)
  | writeLong (a v : Nat)
  | copy (src dst len : Nat)
  | clearWritable
  | act (act : Line.Action)
  | step {σ : Type} (host : Host σ) (s : σ)
  | wake {σ : Type} (host : Host σ) (s : σ)

namespace Operation

def apply : Operation → Machine → Machine
  | load bytes, m => (m.load bytes).2
  | loadRom offset words, m => (m.onMemory (Memory.loadRom offset words)).2
  | reset entry, m => m.reset entry
  | write a v, m => (m.onMemory (Memory.write a v)).2
  | writeLong a v, m => (m.onMemory (Memory.writeLong a v)).2
  | copy src dst len, m => (m.onMemory (Memory.copy src dst len)).2
  | clearWritable, m => { m with memory := m.memory.clearWritable }
  | act a, m => m.perform [a]
  | step host s, m => (m.step host s).2.1
  | wake host s, m => (m.wake host s).2.1

def applyAll : List Operation → Machine → Machine
  | [], m => m
  | op :: ops, m => applyAll ops (op.apply m)

def Loads : Operation → Prop
  | load _ => True
  | loadRom _ _ => True
  | _ => False

end Operation

theorem Cpu.leftBehind_onMemory (x : Memory.Action Unit) (c : Cpu) :
    leftBehind ((onMemory x).run c) = { c with memory := leftBehind (x.run c.memory) } := by
  rw [run_onMemory]
  cases x.run c.memory <;> rfl

theorem Machine.onMemory_snd {ε α : Type} (x : EStateM ε Memory α) (m : Machine) :
    (m.onMemory x).2 = { m with memory := leftBehind (x.run m.memory) } := by
  rw [onMemory_eq]
  cases x.run m.memory <;> rfl

theorem Machine.onMemory_toCpu (x : Memory.Action Unit) (m : Machine) :
    (m.onMemory x).2.toCpu = leftBehind ((Cpu.onMemory x).run m.toCpu) := by
  rw [onMemory_snd, Cpu.leftBehind_onMemory]

/-- A relation between memories that allows for every store is one between processors that no
instruction can leave. -/
theorem Memory.AllowsWriting.stable {R : Memory → Memory → Prop} [IsPreorder Memory R]
    (h : AllowsWriting R) : Stable (InvImage R Cpu.memory) := by
  have onMemory {x : Memory.Action Unit} (hx : Keeps R x) :
      Keeps (InvImage R Cpu.memory) (Cpu.onMemory x) := by
    intro c
    rw [Cpu.leftBehind_onMemory]
    exact hx c.memory
  have same (c : Cpu) : R c.memory c.memory := Std.Refl.refl _
  constructor
  case push =>
    intro v c
    rw [Cpu.run_push]
    cases hr : c.memory.refusal? (Memory.next c.sp) with
    | some f => exact same c
    | none => exact h.put v hr
  case write => exact fun a v => onMemory (h.write a v)
  case writeLong => exact fun a v => onMemory (h.writeLong a v)
  case copy => exact fun src dst len => onMemory (h.copy src dst len)
  case sp | fp => exact fun c _ _ => same c
  case carry => exact fun c _ => same c

instance isPreorder_invImage {α β : Type} (R : β → β → Prop) [IsPreorder β R] (f : α → β) :
    IsPreorder α (InvImage R f) where
  refl _ := Std.Refl.refl (r := R) _
  trans _ _ _ h h' := IsTrans.trans (r := R) _ _ _ h h'

/-- Loading changes nothing but memory. -/
theorem Machine.loadBlocks_snd (bs : List Block) (m : Machine) :
    ∃ memory, (m.loadBlocks bs).2 = { m with memory := memory } := by
  induction bs generalizing m with
  | nil => exact ⟨m.memory, rfl⟩
  | cons b bs ih =>
    have first : (m.loadBlock b).2 = _ := onMemory_snd _ m
    unfold loadBlocks
    rcases hr : m.loadBlock b with ⟨r, k⟩
    rw [hr] at first
    subst first
    cases r with
    | error e => exact ⟨_, rfl⟩
    | ok u =>
      obtain ⟨memory, h⟩ := ih _
      exact ⟨memory, h⟩

theorem Machine.load_snd (bytes : List UInt8) (m : Machine) :
    ∃ memory, (m.load bytes).2 = { m with memory := memory } := by
  unfold load
  cases Image.parse bytes with
  | error e => exact ⟨m.memory, rfl⟩
  | ok blocks => exact loadBlocks_snd blocks m

structure Lasting (R : Cpu → Cpu → Prop) : Prop extends Stable R where
  clear : ∀ c : Cpu, R c { c with memory := c.memory.clearWritable }
  forget : ∀ c : Cpu, R c { c with highWater := 0 }

def AllowsLoading (R : Cpu → Cpu → Prop) : Prop :=
  ∀ offset words (c : Cpu),
    R c { c with memory := leftBehind ((Memory.loadRom offset words).run c.memory) }

theorem AllowsLoading.loadRom {R : Cpu → Cpu → Prop} (h : AllowsLoading R) (offset : Int)
    (words : List Nat) (m : Machine) :
    R m.toCpu (m.onMemory (Memory.loadRom offset words)).2.toCpu := by
  rw [Machine.onMemory_snd]
  exact h offset words m.toCpu

variable {R : Cpu → Cpu → Prop} [IsPreorder Cpu R]

theorem AllowsLoading.loadBlocks (h : AllowsLoading R) (bs : List Block) (m : Machine) :
    R m.toCpu (m.loadBlocks bs).2.toCpu := by
  induction bs generalizing m with
  | nil => exact Std.Refl.refl _
  | cons b bs ih =>
    have first : R m.toCpu (m.loadBlock b).2.toCpu := h.loadRom b.offset b.words m
    unfold Machine.loadBlocks
    rcases hr : m.loadBlock b with ⟨r, m'⟩
    rw [hr] at first
    cases r with
    | error e => exact first
    | ok u => exact IsTrans.trans _ _ _ first (ih m')

theorem AllowsLoading.load (h : AllowsLoading R) (bytes : List UInt8) (m : Machine) :
    R m.toCpu (m.load bytes).2.toCpu := by
  unfold Machine.load
  cases Image.parse bytes with
  | error e => exact Std.Refl.refl _
  | ok blocks => exact h.loadBlocks blocks m

namespace Lasting

theorem reset (h : Lasting R) (entry : Nat) (m : Machine) : R m.toCpu (m.reset entry).toCpu := by
  have h₁ := h.clear m.toCpu
  have h₂ := IsTrans.trans _ _ _ h₁ (h.sp _ (Frame.headerSize - 1) (by decide))
  have h₃ := IsTrans.trans _ _ _ h₂ (h.fp _ 0 (by decide))
  have h₄ := IsTrans.trans _ _ _ h₃ (h.carry _ false)
  exact IsTrans.trans _ _ _ h₄ (h.forget _)

theorem apply (h : Lasting R) {op : Operation} (hop : op.Loads → AllowsLoading R) (m : Machine) :
    R m.toCpu (op.apply m).toCpu := by
  have stored {x : Memory.Action Unit} (hx : Keeps R (Cpu.onMemory x)) :
      R m.toCpu (m.onMemory x).2.toCpu := by
    rw [Machine.onMemory_toCpu]
    exact hx m.toCpu
  cases op with
  | load bytes => exact (hop trivial).load bytes m
  | loadRom offset words => exact (hop trivial).loadRom offset words m
  | reset entry => exact h.reset entry m
  | write a v => exact stored (h.write a v)
  | writeLong a v => exact stored (h.writeLong a v)
  | copy src dst len => exact stored (h.copy src dst len)
  | clearWritable => exact h.clear m.toCpu
  | act a => exact Std.Refl.refl m.toCpu
  | step hosts s => exact h.step hosts m s
  | wake hosts s => exact h.wake hosts m s

theorem applyAll (h : Lasting R) {ops : List Operation}
    (hops : ∀ op ∈ ops, op.Loads → AllowsLoading R) (m : Machine) :
    R m.toCpu (Operation.applyAll ops m).toCpu := by
  induction ops generalizing m with
  | nil => exact Std.Refl.refl _
  | cons op ops ih =>
    have first := h.apply (hops op List.mem_cons_self) m
    have others := ih (fun o ho => hops o (List.mem_cons_of_mem op ho)) (op.apply m)
    exact IsTrans.trans _ _ _ first others

end Lasting
end TwelveBit
