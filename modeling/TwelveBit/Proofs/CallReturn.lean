import TwelveBit.Proofs.Frames
import TwelveBit.Proofs.WellFormed
/-!
Calls and returns. A return goes by the header alone and undoes the call that made it, whatever the
two words in front of the routine say: it need not have as many locals as parameters, and stack
addresses may go round at the end of the address space.
-/
namespace TwelveBit
open Cpu Memory TwelveBit.Frame

inductive Carries (c : Cpu) : PlainOp → List Nat → Prop
  | ret : Carries c .ret []
  | retWord : Carries c .retWord [c.memory.word c.sp]
  | retLong : Carries c .retLong [c.memory.word (back c.sp 1), c.memory.word c.sp]

/-- A return drops the frame with its locals, and pushes the words that it has taken along. -/
theorem pushed_of_return {c c' : Cpu} {op : PlainOp} {vs : List Nat}
    {ret caller locals next pc : Nat} (hmask : c.memory.Masked) (hfp : c.fp < 0x1000000)
    (header : Header c.memory c.fp ret caller locals) (carries : Carries c op vs)
    (hr : (op.run next).run c = .ok pc c') :
    pc = toLong ret ∧
      Pushed vs { c with sp := back c.fp (toWord locals + 1), fp := toLong caller } c' := by
  -- the header does not move with the stack pointer
  have leaves (sp : Nat) := run_leave (c := { c with sp := sp }) hfp header
  cases carries with
  | ret =>
    obtain ⟨hpc, hc⟩ := EStateM.Result.ok.inj ((leaves c.sp).symm.trans hr)
    refine ⟨hpc.symm, ?_⟩
    rw [← hc]
    exact Pushed.nil (back_lt _ _)
  | retWord =>
    obtain ⟨v, d, hpop, hr⟩ := ok_of_bind hr
    obtain ⟨rfl, rfl⟩ := ok_of_pop hpop
    obtain ⟨_, d, hl, hr⟩ := ok_of_bind hr
    rw [leaves] at hl
    cases hl
    obtain ⟨_, hp, hpc⟩ := ok_of_bind_pure hr
    exact ⟨hpc, pushed_of_push hp⟩
  | retLong =>
    obtain ⟨v, d, hpop, hr⟩ := ok_of_bind hr
    obtain ⟨rfl, rfl⟩ := ok_of_popLong hpop
    obtain ⟨_, d, hl, hr⟩ := ok_of_bind hr
    rw [leaves] at hl
    cases hl
    obtain ⟨_, hp, hpc⟩ := ok_of_bind_pure hr
    have hpushed := pushed_of_pushLong hp
    rw [high_join, low_join, toWord_of_lt (hmask _), toWord_of_lt (hmask _)] at hpushed
    exact ⟨hpc, hpushed⟩

inductive Calls (m m' : Machine) : (target ret sp : Nat) → Prop
  | call (target : Nat) (run : m.Executes (.long .call target) m') :
      Calls m m' target (toLong (m.pc + 3)) m.sp
  | callAt (run : m.Executes (.plain .callAt) m') :
      Calls m m' (join (m.memory.word (back m.sp 1)) (m.memory.word m.sp)) (toLong (m.pc + 1))
        (back m.sp 2)

variable {m m' k k' : Machine} {target ret sp : Nat}

theorem Calls.ret_lt (called : Calls m m' target ret sp) : ret < 0x1000000 := by
  cases called <;> exact toLong_lt _

theorem Calls.runs (called : Calls m m' target ret sp) :
    (Frame.call target ret).run { m.toCpu with sp := sp } = .ok m'.pc m'.toCpu := by
  cases called with
  | call target run => exact run.runs nofun
  | callAt run =>
    obtain ⟨target, c, hpop, hcall⟩ := ok_of_bind (run.runs nofun)
    obtain ⟨rfl, rfl⟩ := ok_of_popLong hpop
    exact hcall

structure Called (target ret sp : Nat) (m m' : Machine) : Prop where
  pc_eq : m'.pc = toLong (target + 2)
  fp_eq : m'.fp = back (sp + m.memory.word (next target) + 1) (m.memory.word target)
  sp_eq : m'.sp = toLong (m'.fp + 4)
  header : Header m'.memory m'.fp ret m.fp (m.memory.word (next target))
  agree : Agree (fun a => ¬ InHeader m'.fp a) m.memory m'.memory

theorem called_of_calls (called : Calls m m' target ret sp) : Called target ret sp m m' := by
  have entered := entered_of_call called.runs
  have hfp : m'.fp = toLong (back (sp + m.memory.word (next target)) (m.memory.word target) + 1) :=
    entered.fp_eq
  have hsp : m'.sp = toLong (back (sp + m.memory.word (next target)) (m.memory.word target) + 5) :=
    entered.sp_eq
  constructor
  case pc_eq =>
    obtain ⟨params, _, h₁, h⟩ := ok_of_bind called.runs
    obtain ⟨locals, _, h₂, h⟩ := ok_of_bind h
    obtain ⟨_, _, h₃, h⟩ := ok_of_bind h
    obtain ⟨_, -, hpc⟩ := ok_of_bind_pure h
    exact hpc
  case fp_eq =>
    rw [hfp]
    simp only [back, toLong]
    omega
  case sp_eq =>
    rw [hsp, hfp]
    simp only [toLong]
    omega
  case header => exact entered.header
  case agree =>
    refine entered.agree.mono fun a ha i hi he => ha ⟨i, hi, ?_⟩
    rw [he, hfp]
    simp only [slot, toLong]
    omega

namespace Called
variable (h : Called target ret sp m m')
include h

theorem fp_lt : m'.fp < 0x1000000 := h.fp_eq ▸ back_lt _ _

/-- The parameters go with the locals. -/
theorem back_fp :
    back m'.fp (m.memory.word (next target) + 1) = back sp (m.memory.word target) := by
  rw [h.fp_eq]
  simp only [back, toLong]
  omega

theorem header_of_agree (hk : k.fp = m'.fp) (hm : Agree (InHeader m'.fp) m'.memory k.memory) :
    Header k.memory k.fp ret m.fp (m.memory.word (next target)) := by
  rw [hk]
  exact h.header.of_agree hm

/-- A return that goes well comes back to the caller with the words that it takes along. -/
theorem returns {op : PlainOp} {vs : List Nat} (hmask : m.memory.Masked) (hfp : m.fp < 0x1000000)
    (hret : ret < 0x1000000) (hk : k.fp = m'.fp)
    (hm : Agree (InHeader m'.fp) m'.memory k.memory) (hmask' : k.memory.Masked)
    (carries : Carries k.toCpu op vs) (run : k.Executes (.plain op) k') :
    k'.pc = ret ∧
      Pushed vs { k.toCpu with sp := back sp (m.memory.word target), fp := m.fp } k'.toCpu := by
  have hr : (op.run (toLong (k.pc + 1))).run k.toCpu = .ok k'.pc k'.toCpu := run.runs nofun
  have hp := pushed_of_return hmask' (hk ▸ h.fp_lt) (h.header_of_agree hk hm) carries hr
  rw [toWord_of_lt (hmask _), hk, h.back_fp, toLong_of_lt hret, toLong_of_lt hfp] at hp
  exact hp

end Called

structure HandsOver (ret fp sp : Nat) (vs : List Nat) (m : Machine) : Prop where
  pc_eq : m.pc = ret
  fp_eq : m.fp = fp
  sp_eq : m.sp = toLong (sp + vs.length)
  result : ∀ i (h : i < vs.length), m.memory.word (toLong (sp + 1 + i)) = vs[i]

theorem handsOver_of_pushed {c : Cpu} {vs : List Nat} (hpc : k'.pc = ret)
    (hmask : ∀ v ∈ vs, v < 0x1000) (hp : Pushed vs c k'.toCpu) : HandsOver ret c.fp c.sp vs k' where
  pc_eq := hpc
  fp_eq := hp.fp_eq
  sp_eq := hp.sp_eq
  result i hi := (hp.word_slot i hi).trans (toWord_of_lt (hmask _ (List.getElem_mem hi)))

theorem Carries.masked {c : Cpu} {op : PlainOp} {vs : List Nat} (hmask : c.memory.Masked)
    (carries : Carries c op vs) : ∀ v ∈ vs, v < 0x1000 := by
  intro v hv
  cases carries with
  | ret => cases hv
  | retWord =>
    obtain rfl := List.mem_singleton.1 hv
    exact hmask _
  | retLong =>
    rw [List.mem_cons, List.mem_singleton] at hv
    obtain rfl | rfl := hv <;> exact hmask _

/-- Whatever the two words in front of a routine say, a call puts a header above its locals and
changes nothing else in memory. From any later state with that header a return comes back to the
caller, which has lost its parameters, and leaves memory alone; one that takes a word or a long
along puts it where the parameters were. -/
theorem return_undoes_call (hmask : m.memory.Masked) (hfp : m.fp < 0x1000000)
    (called : Calls m m' target ret sp) :
    let params := m.memory.word target
    let locals := m.memory.word (next target)
    m'.pc = toLong (target + 2) ∧ m'.fp = back (sp + locals + 1) params ∧
      m'.sp = toLong (m'.fp + 4) ∧ Agree (fun a => ¬ InHeader m'.fp a) m.memory m'.memory ∧
      ∀ k : Machine, k.fp = m'.fp → Agree (InHeader m'.fp) m'.memory k.memory →
        (∀ {σ : Type} (watcher : Host σ) (s : σ),
          ∃ s', (Machine.execute watcher (.plain .ret)).run (k, s) = .ok ()
            ({ k with
              sp := back sp params, fp := m.fp, pc := ret
              instructions := k.instructions + 1 }, s')) ∧
        (k.memory.Masked → ∀ k' : Machine,
          (k.Executes (.plain .retWord) k' →
            HandsOver ret m.fp (back sp params) [k.memory.word k.sp] k') ∧
          (k.Executes (.plain .retLong) k' →
            HandsOver ret m.fp (back sp params)
              [k.memory.word (back k.sp 1), k.memory.word k.sp] k')) := by
  intro params locals
  have h := called_of_calls called
  refine ⟨h.pc_eq, h.fp_eq, h.sp_eq, h.agree, fun k hk hm => ⟨fun watcher s => ?_, ?_⟩⟩
  · have hret : (Instruction.run (toLong (k.pc + 1)) (.plain .ret)).run k.toCpu =
        .ok ret { k.toCpu with sp := back sp params, fp := m.fp } := by
      have hl := run_leave (hk ▸ h.fp_lt) (h.header_of_agree hk hm)
      -- the header has kept the values of the caller whole, since they fit into its words
      rw [toWord_of_lt (hmask _), hk, h.back_fp, toLong_of_lt called.ret_lt, toLong_of_lt hfp] at hl
      exact hl
    have hne (op : SystemOp) : Instruction.plain .ret ≠ .system op := Instruction.noConfusion
    rw [Machine.run_execute watcher hne]
    simp only [Instruction.size, hret]
    exact ⟨_, rfl⟩
  · intro hmask' k'
    have taking {op : PlainOp} {vs : List Nat} (carries : Carries k.toCpu op vs)
        (run : k.Executes (.plain op) k') : HandsOver ret m.fp (back sp params) vs k' := by
      obtain ⟨hpc, hp⟩ := h.returns hmask hfp called.ret_lt hk hm hmask' carries run
      exact handsOver_of_pushed hpc (carries.masked hmask') hp
    exact ⟨taking .retWord, taking .retLong⟩

/-- A routine with three parameters and one local is called through its address on the stack. Its
frame overlaps the one of its caller, and its result goes round to the first word of memory. -/
theorem routine_with_few_locals_returns :
    let m := Operation.applyAll [.loadRom 0 [3, 1], .reset 16, .write 4 16]
      (Machine.new ⟨16, 0, 0, 16, by decide⟩)
    let m' := m.after (.plain .callAt)
    let k := m'.after (.word .push 9)
    let k' := k.after (.plain .retWord)
    m'.pc = 18 ∧ m'.fp = 1 ∧ m'.sp = 5 ∧ k'.pc = 17 ∧ k'.fp = 0 ∧ k'.sp = 0 ∧
      k'.memory.word 0 = 9 := by
  intro m m' k k'
  have formed : WellFormed ⟨16, 0, 0, 16, by decide⟩ m.toCpu := (WellFormed.new _).applyAll _
  have run : m.Executes (.plain .callAt) m' := Machine.executes_after (by decide +kernel)
  have pushes : m'.Executes (.word .push 9) k := Machine.executes_after (by decide +kernel)
  have returns : k.Executes (.plain .retWord) k' := Machine.executes_after (by decide +kernel)
  have formed' : WellFormed ⟨16, 0, 0, 16, by decide⟩ k.toCpu :=
    wellFormed_of_executes (wellFormed_of_executes formed run) pushes
  obtain ⟨hpc, hfp, hsp, -, later⟩ := return_undoes_call formed.masked formed.fp_lt (.callAt run)
  have at_fp : m'.fp = 1 := by decide +kernel
  have at_sp : m'.sp = 5 := by decide +kernel
  have target : join (m.memory.word (back m.sp 1)) (m.memory.word m.sp) = 16 := by decide +kernel
  have floor : back (back m.sp 2) (m.memory.word 16) = 0xFFFFFF := by decide +kernel
  have top : k.memory.word k.sp = 9 := by decide +kernel
  have kept : Agree (InHeader m'.fp) m'.memory k.memory := by
    obtain ⟨_, hp, -⟩ := ok_of_bind_pure (pushes.runs fun op => Instruction.noConfusion)
    refine (pushed_of_push hp).agree.mono fun a ha i hi he => ?_
    obtain ⟨j, hj, rfl⟩ := ha
    obtain rfl : i = 0 := Nat.lt_one_iff.1 hi
    have hj' : j < 5 := hj
    simp only [slot, at_fp, at_sp, toLong] at he
    omega
  obtain ⟨-, taking⟩ := later k (by decide +kernel) kept
  obtain ⟨word, -⟩ := taking formed'.masked k'
  have handed := word returns
  rw [target] at hpc
  rw [target, floor, top] at handed
  exact ⟨hpc, at_fp, at_sp, handed.pc_eq.trans (by decide +kernel),
    handed.fp_eq.trans (by decide +kernel), handed.sp_eq, handed.result 0 Nat.one_pos⟩

end TwelveBit
