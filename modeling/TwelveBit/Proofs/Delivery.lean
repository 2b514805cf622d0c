import TwelveBit.Proofs.Frames
import TwelveBit.Proofs.Transition
/-!
Delivery of interrupts. A handler finds the words of its interrupt as locals, and its return puts
the machine back to where the interrupt struck, whatever the handler has done above its header.
-/
namespace TwelveBit
open Cpu Memory TwelveBit.Frame

variable {σ τ : Type} {irq : Interrupt} {m m' k k' : Machine} {t t' : τ}

structure Delivered (irq : Interrupt) (m m' : Machine) : Prop where
  args : ∀ i (h : i < irq.args.length),
    m'.memory.word (toLong (m.sp + 1 + i)) = toWord irq.args[i]
  args_mapped : ∀ i < irq.args.length, toLong (m.sp + 1 + i) < m'.memory.layout.total
  header : Header m'.memory (toLong (m.sp + irq.args.length + 1)) m.pc m.fp irq.args.length
  fp_eq : m'.fp = toLong (m.sp + irq.args.length + 1)
  sp_eq : m'.sp = toLong (m.sp + irq.args.length + 5)
  pc_eq : m'.pc = m.memory.layout.romBase + irq.source.offset
  agree : Agree (fun a => ∀ i < irq.args.length + 5, a ≠ toLong (m.sp + 1 + i)) m.memory m'.memory
  carry_eq : m'.carry = m.carry
  halted_eq : m'.halted = m.halted
  line_eq : m'.line = m.line
  instructions_eq : m'.instructions = m.instructions
  interrupts_eq : m'.interrupts = m.interrupts + 1

theorem delivered_of_deliver {host : Host σ} {vector : Nat} {s s' : σ} (hsp : m.sp < 0x1000000)
    (hv : irq.source.vector? m.memory.layout = some vector)
    (h : (Machine.deliver host irq vector).run (m, s) = .ok () (m', s')) :
    Delivered irq m m' := by
  obtain ⟨c, hr, rfl⟩ := Machine.ok_of_deliver h
  have hc := entered_of_interrupt hsp hr
  exact
    { args := hc.word_slot
      args_mapped := hc.slot_mapped
      header := hc.fp_eq ▸ hc.header
      fp_eq := hc.fp_eq
      sp_eq := hc.sp_eq
      pc_eq := Source.vector?_eq_some hv
      agree := hc.agree
      carry_eq := hc.carry_eq
      halted_eq := rfl
      line_eq := rfl
      instructions_eq := rfl
      interrupts_eq := rfl }

namespace Delivered
variable (h : Delivered irq m m')
include h

theorem header_of_agree (hfp : k.fp = m'.fp) (hk : Agree (InHeader m'.fp) m'.memory k.memory) :
    Header k.memory k.fp m.pc m.fp irq.args.length := by
  have hm : Header m'.memory m'.fp m.pc m.fp irq.args.length := h.fp_eq ▸ h.header
  rw [hfp]
  exact hm.of_agree hk

omit h in
theorem toWord_length : toWord irq.args.length = irq.args.length := by
  have hargs := irq.length_args
  exact toWord_of_lt (by omega)

/-- The return goes back by all words of the interrupt and by the header. -/
theorem back_fp (hsp : m.sp < 0x1000000) : back m'.fp (irq.args.length + 1) = m.sp := by
  have hargs := irq.length_args
  rw [h.fp_eq]
  simp only [back, toLong]
  omega

theorem returns (hpc : m.pc < 0x1000000) (hsp : m.sp < 0x1000000) (hfp : m.fp < 0x1000000)
    (hk : k.fp = m'.fp) (hm : Agree (InHeader m'.fp) m'.memory k.memory) (watcher : Host τ)
    (t : τ) :
    ∃ t', (Machine.execute watcher (.plain .ret)).run (k, t) = .ok ()
      ({ k with sp := m.sp, fp := m.fp, pc := m.pc, instructions := k.instructions + 1 }, t') := by
  have hfp' : k.fp < 0x1000000 := by
    rw [hk, h.fp_eq]
    exact toLong_lt _
  have hret (next : Nat) : (Instruction.run next (.plain .ret)).run k.toCpu =
      .ok m.pc { k.toCpu with sp := m.sp, fp := m.fp } := by
    have hl := run_leave hfp' (h.header_of_agree hk hm)
    rw [toWord_length, hk, h.back_fp hsp, toLong_of_lt hpc, toLong_of_lt hfp] at hl
    exact hl
  have hne (op : SystemOp) : Instruction.plain .ret ≠ .system op :=
    Instruction.noConfusion
  rw [Machine.run_execute watcher hne, hret]
  exact ⟨_, rfl⟩

/-- Locals are counted from the first word of the interrupt on. -/
theorem loads (hend : m.sp + irq.args.length + 5 < 0x1000000) {i : Nat}
    (hi : i < irq.args.length) (hk : k.fp = m'.fp)
    (hm : Agree (fun a => InHeader m'.fp a ∨ ∃ j < irq.args.length, a = toLong (m.sp + 1 + j))
      m'.memory k.memory) {watcher : Host τ}
    (hr : (Machine.execute watcher (.word (.loadLocal .word) i)).run (k, t) = .ok () (k', t')) :
    Pushed [toWord irq.args[i]] k.toCpu k'.toCpu := by
  have header := h.header_of_agree hk (hm.mono fun a ha => Or.inl ha)
  have hfp : k.fp = m.sp + irq.args.length + 1 := by
    rw [hk, h.fp_eq, toLong_of_lt (by omega)]
  -- the arguments are the locals of the handler, from the first one pushed
  have haddr : (localAddr i).run k.toCpu = .ok (toLong (m.sp + 1 + i)) k.toCpu := by
    rw [run_localAddr (by omega) header, toWord_length, hfp]
    congr 1
    simp only [back, toLong]
    omega
  have hmapped : toLong (m.sp + 1 + i) < k.memory.layout.total := by
    rw [hm.layout_eq]
    exact h.args_mapped i hi
  have hread : (read (toLong (m.sp + 1 + i))).run k.toCpu = .ok (toWord irq.args[i]) k.toCpu := by
    rw [run_read_of_lt hmapped, hm.word_eq _ (Or.inr ⟨i, hi, rfl⟩), h.args i hi]
  have hne (op : SystemOp) : Instruction.word (.loadLocal .word) i ≠ .system op :=
    Instruction.noConfusion
  obtain ⟨pc, c, hx, rfl⟩ := Machine.ok_of_execute hne hr
  obtain ⟨_, d, hp, hd⟩ := ok_of_bind hx
  cases hd
  simp only [WordOp.run, readAt, pushAt, EStateM.run_bind, haddr, hread] at hp
  exact pushed_of_push hp

end Delivered

/-- Where an interrupt strikes, nobody notices. Its words and a header come to lie on the stack,
and nothing else changes; a handler that leaves the header alone comes back with the pointers that
the interrupt found, and reads the words as its locals. -/
theorem delivery_is_transparent {host : Host σ} {vector : Nat} {s s' : σ}
    (hpc : m.pc < 0x1000000) (hsp : m.sp < 0x1000000) (hfp : m.fp < 0x1000000)
    (hv : irq.source.vector? m.memory.layout = some vector)
    (hr : (Machine.deliver host irq vector).run (m, s) = .ok () (m', s')) :
    Delivered irq m m' ∧
    (∀ (τ : Type) (watcher : Host τ) (k : Machine) (t : τ),
      k.fp = m'.fp → Agree (InHeader m'.fp) m'.memory k.memory →
      ∃ t', (Machine.execute watcher (.plain .ret)).run (k, t) = .ok ()
        ({ k with sp := m.sp, fp := m.fp, pc := m.pc, instructions := k.instructions + 1 }, t')) ∧
    (m.sp + irq.args.length + 5 < 0x1000000 →
      ∀ (τ : Type) (watcher : Host τ) (k k' : Machine) (t t' : τ) (i : Nat)
        (hi : i < irq.args.length),
      k.fp = m'.fp →
      Agree (fun a => InHeader m'.fp a ∨ ∃ j < irq.args.length, a = toLong (m.sp + 1 + j))
        m'.memory k.memory →
      (Machine.execute watcher (.word (.loadLocal .word) i)).run (k, t) = .ok () (k', t') →
      k'.sp = toLong (k.sp + 1) ∧ k'.memory.word k'.sp = toWord irq.args[i]) := by
  have h : Delivered irq m m' := delivered_of_deliver hsp hv hr
  refine ⟨h, fun τ watcher k t hk hm => h.returns hpc hsp hfp hk hm watcher t,
    fun hend τ watcher k k' t t' i hi hk hm hx => ?_⟩
  have hp := h.loads hend hi hk hm hx
  have hsp' : k'.sp = toLong (k.sp + 1) := hp.sp_eq
  have hword := hp.word_slot 0 Nat.one_pos
  refine ⟨hsp', ?_⟩
  rw [hsp']
  exact hword.trans (toWord_of_lt (toWord_lt _))

/-- A key is pressed while nothing has run yet: the handler finds the low bits of its code, loads
the word that tells which way the key went, and comes back to the entry point. -/
theorem key_delivery_is_transparent :
    let m := Machine.new ⟨16, 0, 0, 16, by decide⟩
    ∃ m', (Machine.deliver Host.idle (.key 0x1041 true) 0x1C).run (m, ()) = .ok () (m', ()) ∧
      m'.memory.word 5 = 0x041 ∧ m'.fp = 7 ∧ m'.pc = 0x1C ∧
      (∃ t, (Machine.execute Host.idle (.plain .ret)).run (m', ()) =
        .ok () ({ m' with sp := 4, fp := 0, pc := 0x30, instructions := 1 }, t)) ∧
      ∃ k, m'.Executes (.word (.loadLocal .word) 1) k ∧ k.memory.word k.sp = 1 := by
  intro m
  let m' := (leftBehind ((Machine.deliver Host.idle (.key 0x1041 true) 0x1C).run (m, ()))).1
  have hr : (Machine.deliver Host.idle (.key 0x1041 true) 0x1C).run (m, ()) = .ok () (m', ()) := rfl
  have hv : (Interrupt.key 0x1041 true).source.vector? m.memory.layout = some 0x1C := rfl
  obtain ⟨h, hret, hload⟩ :=
    delivery_is_transparent (by decide) (by decide) (by decide) hv hr
  have hcode : m'.memory.word 5 = toWord 0x1041 := h.args 0 (by decide)
  have hexec : m'.Executes (.word (.loadLocal .word) 1) (m'.after (.word (.loadLocal .word) 1)) :=
    Machine.executes_after (by decide +kernel)
  obtain ⟨τ, watcher, t, t', hx⟩ := hexec
  obtain ⟨-, hone⟩ :=
    hload (by decide) τ watcher m' _ t t' 1 (by decide) rfl (Agree.refl _ _) hx
  exact ⟨m', hr, hcode, h.fp_eq, h.pc_eq, hret Unit Host.idle m' () rfl (Agree.refl _ _), _,
    ⟨τ, watcher, t, t', hx⟩, hone⟩

end TwelveBit
