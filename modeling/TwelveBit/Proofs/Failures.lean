import TwelveBit.Proofs.WellFormed
/-!
Instructions that fail. A fault names the address that was at fault, or a division by zero. What
an instruction has pushed and popped until then stays done, but its other effects come last: the
carry, the frame pointer and every store are as they were, save that a return with a value drops
its frame before it pushes the value.
-/
namespace TwelveBit
open Cpu

def PlainOp.returning : Width → PlainOp
  | .word => .retWord
  | .long => .retLong

theorem PlainOp.run_returning (w : Width) (next : Nat) :
    (returning w).run next = popAt w >>= fun v => Frame.leave >>= fun pc => pushAt w v >>= fun _ =>
      pure pc := by
  cases w <;> rfl

theorem BinaryOp.apply_eq_error {op : BinaryOp} {w : Width} {a b : Nat} {f : Fault}
    (h : op.apply w a b = .error f) :
    f = .divideByZero ∧ (op = .div ∨ op = .mod) ∧ w.truncate b = 0 := by
  cases op with
  | div | mod =>
    simp only [apply] at h
    by_cases hb : w.truncate b = 0
    · rw [if_pos hb] at h
      cases h
      exact ⟨rfl, by decide, hb⟩
    · rw [if_neg hb] at h
      cases h
  | add | sub | mul | or | xor | and => cases h

/-- Something is known of every failure of a simple effect, and it stays true when looked at from
before other simple effects. -/
structure Blames (R : Cpu → Cpu → Prop) (q : Cpu → Fault → Cpu → Prop) : Prop where
  back : ∀ {c d f e}, R c d → q d f e → q c f e
  keeps : ∀ {α : Type} {x : Effect α}, Simple x → Keeps R x
  fails : ∀ {α : Type} {x : Effect α}, Simple x → Fails q x

namespace Blames
variable {R : Cpu → Cpu → Prop} {q : Cpu → Fault → Cpu → Prop} {α β : Type} (h : Blames R q)
include h

theorem bind {x : Effect α} {f : α → Effect β} (hx : Simple x) (hf : ∀ a, Fails q (f a)) :
    Fails q (x >>= f) :=
  Fails.bind h.back (h.keeps hx) (h.fails hx) hf

/-- The frame pointer is set when nothing can fail any more. -/
theorem enter (ret locals : Nat) : Fails q (Frame.enter ret locals) :=
  h.bind .get fun _ => h.bind (.pushLong _) fun _ => h.bind (.pushLong _) fun _ =>
    (h.fails (.push _)).then_ok fun _ => Fails.of_modify _

theorem call (target ret : Nat) : Fails q (Frame.call target ret) :=
  h.bind (.read _) fun _ => h.bind (.read _) fun _ => h.bind (.move fun _ => back_lt _ _) fun _ =>
    (h.enter _ _).then_ok fun _ => Fails.of_pure _

theorem leave : Fails q Frame.leave :=
  h.bind .get fun _ => h.bind (.read _) fun _ => h.bind (.readAt _ _) fun _ =>
    (h.fails (.readAt _ _)).then_ok fun _ => (Fails.of_modify _).then_ok fun _ => Fails.of_pure _

theorem interrupt (irq : Interrupt) (ret : Nat) : Fails q (Frame.interrupt irq ret) :=
  h.bind (.pushAll _) fun _ => h.enter _ _

theorem finish (w : Width) (r : AluResult) : Fails q (AluOp.finish w r) := by
  refine (h.fails (.pushAt w r.value)).then_ok fun _ => ?_
  cases r.carry with
  | none => exact Fails.of_pure _
  | some b => exact Fails.of_modify _

/-- Only divisions can fail otherwise than by their pops and pushes. -/
theorem alu {op : AluOp} (hop : ∀ o w, op ≠ .binary o w) : Fails q op.run := by
  cases op with
  | binary o w => exact absurd rfl (hop o w)
  | unary op w => exact h.bind (.popAt w) fun _ => h.bind .get fun _ => h.finish w _
  | wideMul => exact h.bind .pop fun _ => h.bind .pop fun _ => h.finish _ _
  | widen | widenSigned => exact h.bind .pop fun _ => h.finish _ _
  | narrow => exact h.bind .popLong fun _ => h.finish _ _

theorem binary (zero : ∀ c, q c .divideByZero c) (op : BinaryOp) (w : Width) :
    Fails q (AluOp.binary op w).run := by
  refine h.bind (.popAt w) fun b => h.bind (.popAt w) fun a => ?_
  cases hr : op.apply w a b with
  | ok r => exact h.finish w r
  | error f =>
    obtain ⟨rfl, -, -⟩ := BinaryOp.apply_eq_error hr
    intro c f c' hf
    cases hf
    exact zero c

theorem instruction {i : Instruction} (hbinary : ∀ o w, i ≠ .plain (.alu (.binary o w)))
    (hreturning : ∀ w, i ≠ .plain (.returning w)) (next : Nat) : Fails q (i.run next) := by
  cases i.kind next with
  | simple hi => exact h.fails hi
  | call target => exact h.call target next
  | callAt => exact h.bind .popLong fun _ => h.call _ _
  | ret => exact h.leave
  | retWord => exact absurd rfl (hreturning .word)
  | retLong => exact absurd rfl (hreturning .long)
  | alu op =>
    have hop (o : BinaryOp) (w : Width) : op ≠ .binary o w := fun ho => hbinary o w (ho ▸ rfl)
    exact (h.alu hop).then_ok fun _ => Fails.of_pure _

end Blames

/-- A relation that simple effects keep is one between what they find and what they leave behind
when they fail. -/
theorem Blames.of_keeps {R : Cpu → Cpu → Prop} [IsPreorder Cpu R]
    (h : ∀ {α : Type} {x : Effect α}, Simple x → Keeps R x) : Blames R fun c _ d => R c d where
  back h₁ h₂ := IsTrans.trans _ _ _ h₁ h₂
  keeps := h
  fails hx := (h hx).fails

def Fault.Misses (l : Layout) : Fault → Prop
  | .romWrite a => l.romBase ≤ a ∧ a < l.total
  | .outOfRange a => l.total ≤ a
  | .unknownOpcode _ | .unknownJumpMode _ | .divideByZero => False

namespace Memory
variable {m : Memory} {f : Fault}

theorem misses_of_refusal? {a : Nat} (h : m.refusal? a = some f) : f.Misses m.layout := by
  unfold refusal? at h
  by_cases ht : m.layout.total ≤ a
  · rw [if_pos ht] at h
    cases h
    exact ht
  · rw [if_neg ht] at h
    by_cases hr : m.layout.romBase ≤ a
    · rw [if_pos hr] at h
      cases h
      exact ⟨hr, Nat.not_le.mp ht⟩
    · rw [if_neg hr] at h
      cases h

theorem misses_of_or {a b : Nat} (h : (m.refusal? a).or (m.refusal? b) = some f) :
    f.Misses m.layout := by
  obtain h | ⟨-, h⟩ := Option.or_eq_some_iff.mp h <;> exact misses_of_refusal? h

/-- Where 32 bits can name the end of the source, it is named as it is. -/
theorem misses_of_copyRefusal? {src dst len : Nat} (hend : src + (len - 1) < 0x100000000)
    (h : m.copyRefusal? src dst len = some f) : f.Misses m.layout := by
  unfold copyRefusal? at h
  by_cases h0 : len = 0
  · rw [if_pos h0] at h
    cases h
  · rw [if_neg h0, if_neg (Nat.not_le.mpr hend)] at h
    by_cases ht : m.layout.total ≤ src + (len - 1)
    · rw [if_pos ht] at h
      cases h
      exact ht
    · rw [if_neg ht] at h
      exact misses_of_or h

end Memory

namespace Cpu

/-- A store that was refused has changed nothing. -/
theorem error_of_onMemory {x : Memory.Action Unit} {r : Memory → Option Fault} {t : Memory → Memory}
    (hx : ∀ m, x.run m = match r m with | some f => .error f m | none => .ok () (t m))
    {c c' : Cpu} {f : Fault} (h : (onMemory x).run c = .error f c') :
    r c.memory = some f ∧ c' = c := by
  rw [run_onMemory, hx] at h
  cases hr : r c.memory with
  | some g =>
    simp only [hr] at h
    cases h
    exact ⟨rfl, rfl⟩
  | none =>
    simp only [hr] at h
    cases h

theorem error_of_read {a : Nat} {c c' : Cpu} {f : Fault} (h : (read a).run c = .error f c') :
    f = .outOfRange a ∧ c.memory.layout.total ≤ a ∧ c' = c := by
  rw [run_read] at h
  split at h
  · cases h
  · cases h
    exact ⟨rfl, Nat.not_lt.mp ‹_›, rfl⟩

theorem error_of_push {v : Nat} {c c' : Cpu} {f : Fault} (h : (push v).run c = .error f c') :
    c.memory.refusal? (Memory.next c.sp) = some f ∧ c' = c := by
  rw [run_push] at h
  cases hr : c.memory.refusal? (Memory.next c.sp) with
  | some g =>
    simp only [hr] at h
    cases h
    exact ⟨rfl, rfl⟩
  | none =>
    simp only [hr] at h
    cases h

def Misses (c : Cpu) (f : Fault) (_ : Cpu) : Prop := f.Misses c.memory.layout

abbrev SameLayout : Cpu → Cpu → Prop := InvImage StaysMasked memory

theorem Misses.back {c d e : Cpu} {f : Fault} (hR : SameLayout c d) (h : Misses d f e) :
    Misses c f e := by
  have hl : d.memory.layout = c.memory.layout := hR.1
  unfold Misses at h ⊢
  rwa [hl] at h

theorem keeps_sameLayout_of_simple {α : Type} {x : Effect α} (hx : Simple x) : Keeps SameLayout x :=
  staysMasked_writing.stable.of_simple hx

theorem misses_of_simple {α : Type} {x : Effect α} (hx : Simple x) : Fails Misses x := by
  induction hx with
  | pure a => exact Fails.of_pure a
  | get => exact Fails.of_get
  | move hf => exact Fails.of_modify _
  | read a =>
    intro c f c' h
    obtain ⟨rfl, ha, -⟩ := error_of_read h
    exact ha
  | push v => exact fun c f c' h => Memory.misses_of_refusal? (error_of_push h).1
  | write a v =>
    exact fun c f c' h => Memory.misses_of_refusal? (error_of_onMemory (Memory.run_write a v) h).1
  | writeLong a v =>
    exact fun c f c' h => Memory.misses_of_or (error_of_onMemory (Memory.run_writeLong a v) h).1
  | copy dst hs hl =>
    exact fun c f c' h =>
      Memory.misses_of_copyRefusal? (by omega) (error_of_onMemory (Memory.run_copy _ dst _) h).1
  | bind_of hx hp _ ihx ihf =>
    exact Fails.bind_of Misses.back (keeps_sameLayout_of_simple hx) hp ihx ihf

theorem blames_misses : Blames SameLayout Misses :=
  ⟨Misses.back, keeps_sameLayout_of_simple, misses_of_simple⟩

end Cpu

def Instruction.Divides (i : Instruction) (c : Cpu) : Prop :=
  ∃ op w b d, (op = .div ∨ op = .mod) ∧ i = .plain (.alu (.binary op w)) ∧
    (popAt w).run c = .ok b d ∧ w.truncate b = 0

/-- The instruction is a return that dropped its frame, and then failed to push its value. -/
def Instruction.Drops (i : Instruction) (c : Cpu) (f : Fault) (c' : Cpu) : Prop :=
  ∃ w v d pc e, i = .plain (.returning w) ∧ (popAt w).run c = .ok v d ∧
    Frame.leave.run d = .ok pc e ∧ (pushAt w v).run e = .error f c'

def Instruction.Stores : Instruction → Prop
  | .long (.store _) _ | .plain (.storeAt _) | .plain .copy | .word (.storeLocal _) _ => True
  | _ => False

namespace Cpu

abbrev SameMemory : Cpu → Cpu → Prop := InvImage Eq memory

theorem keeps_sameMemory_pop : Keeps SameMemory pop := by
  intro c
  rw [run_pop]
  split <;> rfl

theorem keeps_sameMemory_popAt (w : Width) : Keeps SameMemory (popAt w) := by
  cases w with
  | word => exact keeps_sameMemory_pop
  | long =>
    exact keeps_sameMemory_pop.bind fun _ => keeps_sameMemory_pop.bind fun _ => Keeps.of_pure _

/-- A division by zero has only popped; an operation that fails otherwise is at an address. -/
theorem error_of_binary {op : BinaryOp} {w : Width} {c c' : Cpu} {f : Fault}
    (h : (AluOp.binary op w).run.run c = .error f c') :
    Misses c f c' ∨ f = .divideByZero ∧ SameMemory c c' ∧ (op = .div ∨ op = .mod) ∧
      ∃ b d, (popAt w).run c = .ok b d ∧ w.truncate b = 0 := by
  obtain h | ⟨b, c₁, hb, h⟩ := error_of_bind h
  · exact Or.inl (misses_of_simple (.popAt w) c f c' h)
  have l₁ := (keeps_sameLayout_of_simple (.popAt w)).of_ok hb
  have m₁ := (keeps_sameMemory_popAt w).of_ok hb
  obtain h | ⟨a, c₂, ha, h⟩ := error_of_bind h
  · exact Or.inl (Misses.back l₁ (misses_of_simple (.popAt w) c₁ f c' h))
  have l₂ := (keeps_sameLayout_of_simple (.popAt w)).of_ok ha
  have m₂ := (keeps_sameMemory_popAt w).of_ok ha
  cases hr : op.apply w a b with
  | error g =>
    rw [hr] at h
    cases h
    obtain ⟨rfl, hop, hz⟩ := BinaryOp.apply_eq_error hr
    exact Or.inr ⟨rfl, IsTrans.trans _ _ _ m₁ m₂, hop, b, c₁, hb, hz⟩
  | ok r =>
    rw [hr] at h
    exact Or.inl (Misses.back l₁ (Misses.back l₂ (blames_misses.finish w r c₂ f c' h)))

theorem misses_of_returning (w : Width) (next : Nat) :
    Fails Misses ((PlainOp.returning w).run next) := by
  rw [PlainOp.run_returning]
  refine blames_misses.bind (.popAt w) fun v => ?_
  refine Fails.bind Misses.back staysMasked_writing.stable.leave blames_misses.leave fun pc => ?_
  exact (misses_of_simple (.pushAt w v)).then_ok fun _ => Fails.of_pure _

abbrev SameRegisters : Cpu → Cpu → Prop := InvImage Eq fun c => (c.fp, c.carry)

theorem blames_registers : Blames SameRegisters fun c _ d => SameRegisters c d :=
  .of_keeps (Simple.keeps fun _ _ _ _ => rfl)

theorem keeps_carry_leave : Keeps (InvImage Eq Cpu.carry) Frame.leave := by
  have simple {α : Type} {x : Effect α} (hx : Simple x) : Keeps (InvImage Eq Cpu.carry) x :=
    hx.keeps fun _ _ _ _ => rfl
  refine Keeps.of_get.bind fun _ => (simple (.read _)).bind fun _ =>
    (simple (.readAt _ _)).bind fun _ => (simple (.readAt _ _)).bind fun _ =>
      Keeps.bind (Keeps.of_modify fun c => ?_) fun _ => Keeps.of_pure _
  rfl

theorem error_of_returning {w : Width} {next : Nat} {c c' : Cpu} {f : Fault}
    (h : ((PlainOp.returning w).run next).run c = .error f c') :
    SameRegisters c c' ∨ c'.carry = c.carry ∧ Instruction.Drops (.plain (.returning w)) c f c' := by
  rw [PlainOp.run_returning] at h
  obtain h | ⟨v, d, hv, h⟩ := error_of_bind h
  · exact Or.inl (blames_registers.fails (.popAt w) c f c' h)
  have r₁ := (blames_registers.keeps (.popAt w)).of_ok hv
  obtain h | ⟨pc, e, hl, h⟩ := error_of_bind h
  · exact Or.inl (Eq.trans r₁ (blames_registers.leave d f c' h))
  obtain h | ⟨_, _, -, h⟩ := error_of_bind h
  · have r₂ := keeps_carry_leave.of_ok hl
    have r₃ := blames_registers.fails (.pushAt w v) e f c' h
    have hc : c.carry = c'.carry :=
      ((congrArg Prod.snd r₁).trans r₂).trans (congrArg Prod.snd r₃)
    exact Or.inr ⟨hc.symm, w, v, d, pc, e, rfl, hv, hl, h⟩
  · cases h

/-- A store comes after all that can fail otherwise, and one that is refused changes no word. -/
theorem memory_of_stores {i : Instruction} (hi : i.Stores) (next : Nat) :
    Fails (fun c _ d => SameMemory c d) (i.run next) := by
  have refused {a v : Nat} {w : Width} : Fails (fun c _ d => SameMemory c d) (writeAt w a v) := by
    intro c f c' h
    cases w with
    | word => exact congrArg memory (error_of_onMemory (Memory.run_write a v) h).2.symm
    | long => exact congrArg memory (error_of_onMemory (Memory.run_writeLong a v) h).2.symm
  -- whatever comes before the store only pops or looks
  have behind {α β : Type} {x : Effect α} {f : α → Effect β} (hx : Keeps SameMemory x)
      (hf : ∀ a, Fails (fun c _ d => SameMemory c d) (f a)) :
      Fails (fun c _ d => SameMemory c d) (x >>= f) :=
    Fails.bind (fun h₁ h₂ => Eq.trans h₁ h₂) hx hx.fails hf
  cases i with
  | system | jump => exact hi.elim
  | long op v =>
    cases op with
    | store w =>
      exact behind (keeps_sameMemory_popAt w) fun _ => refused.then_ok fun _ => Fails.of_pure _
    | push | load | call => exact hi.elim
  | word op k =>
    cases op with
    | storeLocal w =>
      have haddr : Keeps SameMemory (Frame.localAddr k) :=
        (Keeps.of_get.bind fun _ => (Stable.read _).bind fun _ => Keeps.of_pure _).bind fun _ =>
          Keeps.of_pure _
      exact (behind haddr fun _ => behind (keeps_sameMemory_popAt w) fun _ => refused).then_ok
        fun _ => Fails.of_pure _
    | push | loadLocal | addrLocal => exact hi.elim
  | plain op =>
    cases op with
    | storeAt w =>
      exact behind (keeps_sameMemory_popAt w) fun _ => behind (keeps_sameMemory_popAt .long) fun _ =>
        refused.then_ok fun _ => Fails.of_pure _
    | copy =>
      refine behind (keeps_sameMemory_popAt .long) fun len =>
        behind (keeps_sameMemory_popAt .long) fun dst =>
          behind (keeps_sameMemory_popAt .long) fun src => Fails.then_ok ?_ fun _ => Fails.of_pure _
      exact fun c f c' h =>
        congrArg memory (error_of_onMemory (Memory.run_copy src dst len) h).2.symm
    | pop | dup | swap | dupSecond | loadAt | callAt | ret | retWord | retLong | alu => exact hi.elim

end Cpu

structure Instruction.Failed (i : Instruction) (c : Cpu) (f : Fault) (c' : Cpu) : Prop where
  reason : f.Misses c.memory.layout ∨ f = .divideByZero ∧ i.Divides c
  carry_eq : c'.carry = c.carry
  fp_eq : c'.fp = c.fp ∨ i.Drops c f c'
  memory_eq : i.Stores ∨ f = .divideByZero → c'.memory = c.memory

theorem Instruction.failed_of_run {next : Nat} {i : Instruction} {c c' : Cpu} {f : Fault}
    (h : (i.run next).run c = .error f c') : i.Failed c f c' := by
  have stores : i.Stores → c'.memory = c.memory :=
    fun hi => (memory_of_stores hi next c f c' h).symm
  -- where the fault is about an address, it is not about a division
  have missed (hm : Misses c f c') : i.Stores ∨ f = .divideByZero → c'.memory = c.memory := by
    rintro (hi | rfl)
    · exact stores hi
    · exact hm.elim
  have kept (hr : SameRegisters c c') : c'.fp = c.fp ∧ c'.carry = c.carry := by
    have := hr.symm
    exact Prod.mk.inj this
  by_cases hbinary : ∃ o w, i = .plain (.alu (.binary o w))
  · obtain ⟨o, w, rfl⟩ := hbinary
    have hrun : (AluOp.binary o w).run.run c = .error f c' := by
      obtain h | ⟨_, _, -, h⟩ := error_of_bind h
      · exact h
      · cases h
    have hs : SameRegisters c c' := blames_registers.binary (fun _ => rfl) o w c f c' hrun
    obtain hm | ⟨hz, hmem, ho, b, d, hb, hzero⟩ := error_of_binary hrun
    · exact ⟨Or.inl hm, (kept hs).2, Or.inl (kept hs).1, missed hm⟩
    · exact ⟨Or.inr ⟨hz, o, w, b, d, ho, rfl, hb, hzero⟩, (kept hs).2, Or.inl (kept hs).1,
        fun _ => hmem.symm⟩
  by_cases hreturning : ∃ w, i = .plain (.returning w)
  · obtain ⟨w, rfl⟩ := hreturning
    have hm : Misses c f c' := misses_of_returning w next c f c' h
    obtain hr | ⟨hc, hd⟩ := error_of_returning h
    · exact ⟨Or.inl hm, (kept hr).2, Or.inl (kept hr).1, missed hm⟩
    · exact ⟨Or.inl hm, hc, Or.inr hd, missed hm⟩
  · have hb (o : BinaryOp) (w : Width) : i ≠ .plain (.alu (.binary o w)) :=
      fun he => hbinary ⟨o, w, he⟩
    have hr (w : Width) : i ≠ .plain (.returning w) := fun he => hreturning ⟨w, he⟩
    have hm : Misses c f c' := blames_misses.instruction hb hr next c f c' h
    have hs : SameRegisters c c' := blames_registers.instruction hb hr next c f c' h
    exact ⟨Or.inl hm, (kept hs).2, Or.inl (kept hs).1, missed hm⟩

end TwelveBit
