import TwelveBit.Proofs.CallReturn
import TwelveBit.Proofs.Reset
import TwelveBit.Proofs.StackEffects
/-!
Locals. A routine finds the words that its caller has pushed as its first locals, and its locals
are cells that nothing but a store to them changes: they lie below the header, and whatever the
routine keeps on its stack lies above it.
-/
namespace TwelveBit
open Cpu Memory TwelveBit.Frame

section Instructions
variable {k k' : Machine} {w : Width} {j : Nat}

structure Machine.Stores (w : Width) (a : Nat) (k k' : Machine) : Prop where
  sp_eq : k'.sp = back k.sp w.words
  fp_eq : k'.fp = k.fp
  carry_eq : k'.carry = k.carry
  stored : (w.cells a).map k'.memory.word = k.toCpu.top w.words
  agree : Agree (fun b => b ∉ w.cells a) k.memory k'.memory

theorem needs_storeLocal {c : Cpu} (hsp : c.sp < 0x1000000) (w : Width) (j : Nat) :
    Needs (c.Counted ∧ Poppable w.words c ∧
        ∀ b ∈ w.cells (c.localCell j), b < c.memory.layout.romBase)
      (WordOp.run j (.storeLocal w)) c ()
      { c.drop w.words with
        memory := c.memory.putAt w (c.localCell j) (w.value (c.top w.words)) } :=
  (needs_localAddr_counted c j).bind
    ((needs_popAt hsp).bind (needs_writeAt (c := c.drop w.words) (w := w) _ _))

variable (hm : k.memory.Masked) (hsp : k.sp < 0x1000000) (hfp : k.fp + 4 < 0x1000000)
include hm hsp hfp

omit hfp in
theorem stores_of_storeLocal (run : k.Executes (.word (.storeLocal w) j) k') :
    Machine.Stores w (k.toCpu.localCell j) k k' := by
  obtain ⟨_, hr, -⟩ := ok_of_bind_pure (run.runs fun op => Instruction.noConfusion)
  have needs := needs_storeLocal hsp w j
  obtain ⟨-, -, writable⟩ := needs.holds _ _ hr
  obtain ⟨-, hk⟩ := needs.eq_of_ok hr
  have htotal := k.memory.layout.romBase_le_total
  have mapped : ∀ b ∈ w.cells (k.toCpu.localCell j), b < k.memory.layout.total :=
    fun b hb => (writable b hb).trans_le htotal
  constructor
  case sp_eq | fp_eq | carry_eq =>
    rw [hk]
    rfl
  case stored =>
    rw [hk]
    exact (map_word_putAt _ mapped _).trans (Width.split_value (wordList_top hm _))
  case agree =>
    rw [hk]
    exact agree_putAt _ _ _ _

theorem pushed_of_loadLocal (run : k.Executes (.word (.loadLocal w) j) k') :
    Pushed ((w.cells (k.toCpu.localCell j)).map k.memory.word) k.toCpu k'.toCpu := by
  have pushed := Instruction.pushed_of_executes (i := .word (.loadLocal w) j) rfl hm hsp hfp run
  have same : { k.toCpu.drop 0 with carry := k.carry } = k.toCpu := drop_zero hsp
  exact same ▸ pushed

theorem pushed_of_addrLocal (run : k.Executes (.word .addrLocal j) k') :
    Pushed (Width.long.split (k.toCpu.localCell j)) k.toCpu k'.toCpu := by
  have pushed := Instruction.pushed_of_executes (i := .word .addrLocal j) rfl hm hsp hfp run
  have same : { k.toCpu.drop 0 with carry := k.carry } = k.toCpu := drop_zero hsp
  exact same ▸ pushed

end Instructions

section Returning
variable {m : Machine} {ret caller locals : Nat}

/-- A return goes well wherever there is a header, and leaves memory alone. -/
theorem returns_of_header (hfp : m.fp < 0x1000000)
    (header : Header m.memory m.fp ret caller locals) :
    (∃ k, m.Executes (.plain .ret) k) ∧ ∀ k, m.Executes (.plain .ret) k → k.pc = toLong ret ∧
      k.toCpu = { m.toCpu with sp := back m.fp (toWord locals + 1), fp := toLong caller } := by
  have plain (op : SystemOp) : Instruction.plain .ret ≠ .system op := Instruction.noConfusion
  have leaves := run_leave (c := m.toCpu) hfp header
  refine ⟨(Machine.executes_iff plain).2 ⟨_, _, leaves⟩, fun k run => ?_⟩
  obtain ⟨hpc, hk⟩ := EStateM.Result.ok.inj (leaves.symm.trans (run.runs plain))
  exact ⟨hpc.symm, hk.symm⟩

/-- What a return needs, with or without a call before it. -/
theorem needs_leave (c : Cpu) :
    Needs (c.countCell < c.memory.layout.total ∧
        (∀ a ∈ Width.long.cells c.fp, a < c.memory.layout.total) ∧
        ∀ a ∈ Width.long.cells (toLong (c.fp + 2)), a < c.memory.layout.total)
      leave c (Width.long.value ((Width.long.cells c.fp).map c.memory.word))
      { c with
        sp := back c.fp (c.memory.word c.countCell + 1)
        fp := Width.long.value ((Width.long.cells (toLong (c.fp + 2))).map c.memory.word) } := by
  have run : Needs _ leave c _ _ := Needs.of_get ((needs_read _).bind
    ((needs_readAt (w := .long) _).bind ((needs_readAt (w := .long) _).bind
      ((Needs.of_modify _ _).bind_pure))))
  exact run.iff (by simp only [and_true]; rfl)

end Returning

structure Unbroken (c : Cpu) (ret caller locals : Nat) : Prop where
  header : Header c.memory c.fp ret caller locals
  locals_lt : locals < 0x1000
  base : locals ≤ c.fp
  top : c.fp + 4 < 0x1000000

namespace Unbroken
variable {c : Cpu} {k k' : Machine} {ret caller locals j : Nat} {w : Width}

theorem localCell_eq (h : Unbroken c ret caller locals) (j : Nat) :
    c.localCell j = toLong (c.fp - locals + j) := by
  obtain ⟨header, hlt, hbase, htop⟩ := h
  have hback : back c.fp locals = c.fp - locals := by
    simp only [back, toLong]
    omega
  rw [localCell, countCell, header.count, toWord_of_lt hlt, hback]

theorem localCell_of_le (h : Unbroken c ret caller locals) (hj : j + w.words ≤ locals) :
    c.localCell j = c.fp - locals + j := by
  have hbase := h.base
  have htop := h.top
  rw [h.localCell_eq, toLong_of_lt (by omega)]

theorem mem_cells (h : Unbroken c ret caller locals) (hj : j + w.words ≤ locals) {b : Nat} :
    b ∈ w.cells (c.fp - locals + j) ↔
      c.fp - locals + j ≤ b ∧ b < c.fp - locals + j + w.words := by
  have hbase := h.base
  have htop := h.top
  exact Width.mem_cells (by omega)

/-- A store below the header leaves the frame as it is. -/
theorem of_stores {a : Nat} (h : Unbroken k.toCpu ret caller locals)
    (stores : Machine.Stores w a k k') (below : ∀ b ∈ w.cells a, b < k.fp) :
    Unbroken k'.toCpu ret caller locals := by
  have htop := h.top
  have kept : Agree (InHeader k.fp) k.memory k'.memory := by
    refine stores.agree.mono fun b hb hin => ?_
    obtain ⟨i, hi, rfl⟩ := hb
    have hi' : i < 5 := hi
    have := below _ hin
    rw [toLong_of_lt (by omega)] at this
    omega
  constructor
  case header => exact stores.fp_eq ▸ h.header.of_agree kept
  case locals_lt => exact h.locals_lt
  case base => exact stores.fp_eq ▸ h.base
  case top => exact stores.fp_eq ▸ h.top

/-- A value is stored between the base of the locals and the header, and stays there. -/
theorem of_storeLocal (h : Unbroken k.toCpu ret caller locals) (hm : k.memory.Masked)
    (hsp : k.sp < 0x1000000) (hj : j + w.words ≤ locals)
    (run : k.Executes (.word (.storeLocal w) j) k') :
    Machine.Stores w (k.fp - locals + j) k k' ∧ Unbroken k'.toCpu ret caller locals ∧
      Agree (fun b => b < k.fp - locals + j ∨ k.fp - locals + j + w.words ≤ b)
        k.memory k'.memory := by
  have hbase := h.base
  have cells {b : Nat} := h.mem_cells hj (b := b)
  have stores := stores_of_storeLocal hm hsp run
  rw [h.localCell_of_le hj] at stores
  refine ⟨stores, h.of_stores stores fun b hb => ?_, stores.agree.mono fun b hb hin => ?_⟩
  · have := (cells.1 hb).2
    omega
  · have := cells.1 hin
    omega

/-- What has been stored in a local is pushed again. -/
theorem pushed_back {k₁ : Machine} (h : Unbroken k.toCpu ret caller locals)
    (hm : k.memory.Masked) (hsp : k.sp < 0x1000000) (hj : j + w.words ≤ locals)
    (store : k.Executes (.word (.storeLocal w) j) k')
    (load : k'.Executes (.word (.loadLocal w) j) k₁) :
    Pushed (k.toCpu.top w.words) k'.toCpu k₁.toCpu := by
  obtain ⟨stores, h', -⟩ := h.of_storeLocal hm hsp hj store
  have pushed := pushed_of_loadLocal (masked_of_executes hm store)
    (stores.sp_eq ▸ back_lt _ _) h'.top load
  rwa [h'.localCell_of_le hj, stores.fp_eq, stores.stored] at pushed

/-- The address of a local can be pushed wherever there is room for it. -/
theorem executes_addrLocal (h : Unbroken k.toCpu ret caller locals) (hm : k.memory.Masked)
    (hsp : k.sp < 0x1000000) (j : Nat) :
    (∃ k', k.Executes (.word .addrLocal j) k') ↔ Pushable 2 k.toCpu := by
  have mapped : k.toCpu.countCell < k.memory.layout.total := h.header.mapped _ ⟨4, by decide, rfl⟩
  have same : k.toCpu.drop 0 = k.toCpu := drop_zero hsp
  rw [Instruction.executes_iff_allowed (i := .word .addrLocal j) rfl hm hsp h.top]
  constructor
  · exact fun allowed => same ▸ allowed.pushable
  · exact fun room => ⟨poppable_zero, List.forall_mem_singleton.2 mapped, trivial, same.symm ▸ room⟩

end Unbroken

theorem Called.unbroken {m m' k : Machine} {target ret sp : Nat} (h : Called target ret sp m m')
    (hmask : m.memory.Masked) (hbase : m.memory.word (next target) ≤ m'.fp)
    (htop : m'.fp + 4 < 0x1000000) (hk : k.fp = m'.fp)
    (hm : Agree (InHeader m'.fp) m'.memory k.memory) :
    Unbroken k.toCpu ret m.fp (m.memory.word (next target)) where
  header := h.header_of_agree hk hm
  locals_lt := hmask _
  base := hk ▸ hbase
  top := hk ▸ htop

/-- The first locals of a routine are the words that its caller has pushed. -/
theorem Called.parameters {m m' : Machine} {target ret sp j : Nat} {w : Width}
    (h : Called target ret sp m m') (hmask : m.memory.Masked)
    (hparams : m.memory.word target ≤ m.memory.word (next target))
    (hbase : m.memory.word (next target) ≤ m'.fp) (htop : m'.fp + 4 < 0x1000000)
    (hj : j + w.words ≤ m.memory.word target) :
    (w.cells (m'.toCpu.localCell j)).map m'.memory.word =
      m.memory.wordsFrom (back sp (m.memory.word target) + 1 + j) w.words := by
  have frame := h.unbroken hmask hbase htop (k := m') rfl (Agree.refl _ _)
  have hle := hj.trans hparams
  have hp := hmask target
  have hl := hmask (next target)
  have kept : (w.cells (m'.fp - m.memory.word (next target) + j)).map m'.memory.word =
      (w.cells (m'.fp - m.memory.word (next target) + j)).map m.memory.word := by
    refine List.map_congr_left fun b hb => h.agree.word_eq b ?_
    rintro ⟨i, hi, rfl⟩
    have hi' : i < 5 := hi
    have := ((frame.mem_cells hle).1 hb).2
    rw [toLong_of_lt (by omega)] at this
    omega
  rw [frame.localCell_of_le hle, kept, map_word_cells _ (by omega)]
  refine wordsFrom_congr _ ?_ _
  have hfp := h.fp_eq
  simp only [back, toLong] at hfp ⊢
  omega

theorem Calls.masked {m m' : Machine} {target ret sp : Nat} (called : Calls m m' target ret sp)
    (hmask : m.memory.Masked) : m'.memory.Masked := by
  cases called with
  | call target run => exact masked_of_executes hmask run
  | callAt run => exact masked_of_executes hmask run

/-- The parameters of a routine are its first locals. As long as its header is intact, each local
has an address of its own and keeps the value that has been stored in it; a store changes nothing
else, so that the routine still returns to its caller. -/
theorem locals_are_parameters_and_private {m m' : Machine} {target ret sp : Nat}
    (hmask : m.memory.Masked) (hfp : m.fp < 0x1000000) (called : Calls m m' target ret sp)
    (hparams : m.memory.word target ≤ m.memory.word (next target))
    (hbase : m.memory.word (next target) ≤ m'.fp) (htop : m'.fp + 4 < 0x1000000) :
    let params := m.memory.word target
    let locals := m.memory.word (next target)
    let base := m'.fp - locals
    (∀ w j k, j + w.words ≤ params → m'.Executes (.word (.loadLocal w) j) k →
      Pushed (m.memory.wordsFrom (back sp params + 1 + j) w.words) m'.toCpu k.toCpu) ∧
    ∀ k : Machine, k.fp = m'.fp → Agree (InHeader m'.fp) m'.memory k.memory →
      k.memory.Masked → k.sp < 0x1000000 →
      (∀ j, ((∃ k', k.Executes (.word .addrLocal j) k') ↔ Pushable 2 k.toCpu) ∧
        ∀ k', k.Executes (.word .addrLocal j) k' →
          Pushed (Width.long.split (base + j)) k.toCpu k'.toCpu) ∧
      ∀ w j k', j + w.words ≤ locals → k.Executes (.word (.storeLocal w) j) k' →
        k'.sp = back k.sp w.words ∧ k'.fp = k.fp ∧
        Agree (fun b => b < base + j ∨ base + j + w.words ≤ b) k.memory k'.memory ∧
        (∀ b, m'.fp ≤ b → k'.memory.word b = k.memory.word b) ∧
        (∀ i < locals, i < j ∨ j + w.words ≤ i →
          k'.memory.word (base + i) = k.memory.word (base + i)) ∧
        (∀ k₁, k'.Executes (.word (.loadLocal w) j) k₁ →
          Pushed (k.toCpu.top w.words) k'.toCpu k₁.toCpu) ∧
        (∃ k₁, k'.Executes (.plain .ret) k₁) ∧
        ∀ k₁, k'.Executes (.plain .ret) k₁ →
          k₁.pc = ret ∧ k₁.fp = m.fp ∧ k₁.sp = back sp params := by
  intro params locals base
  have h := called_of_calls called
  constructor
  · intro w j k hj run
    have hsp : m'.sp < 0x1000000 := h.sp_eq ▸ toLong_lt _
    exact h.parameters hmask hparams hbase htop hj ▸
      pushed_of_loadLocal (called.masked hmask) hsp htop run
  intro k hk hm hmask' hsp
  have frame : Unbroken k.toCpu ret m.fp locals := h.unbroken hmask hbase htop hk hm
  have hcell (j : Nat) : k.toCpu.localCell j = toLong (base + j) := by
    rw [frame.localCell_eq, hk]
  constructor
  · intro j
    refine ⟨frame.executes_addrLocal hmask' hsp j, fun k' run => ?_⟩
    have pushed := pushed_of_addrLocal hmask' hsp frame.top run
    rwa [hcell, Width.long_split_toLong] at pushed
  · intro w j k' hj run
    obtain ⟨stores, frame', apart⟩ := frame.of_storeLocal hmask' hsp hj run
    have htop' := frame'.top
    have returns := returns_of_header (m := k') (by omega) frame'.header
    rw [hk] at apart
    -- the cells lie between the base of the locals and the header
    have roof : base + j + w.words ≤ m'.fp := by omega
    refine ⟨stores.sp_eq, stores.fp_eq, apart, fun b hb => apart.word_eq b (by omega),
      fun i _ hij => apart.word_eq _ (by omega), fun k₁ load => ?_, returns.1,
      fun k₁ leave => ?_⟩
    · exact frame.pushed_back hmask' hsp hj run load
    · obtain ⟨hpc, hk₁⟩ := returns.2 k₁ leave
      rw [toWord_of_lt (hmask _), stores.fp_eq, hk, h.back_fp, toLong_of_lt hfp] at hk₁
      exact ⟨hpc.trans (toLong_of_lt called.ret_lt), hk₁ ▸ rfl, hk₁ ▸ rfl⟩

/-- A routine with one parameter and two more locals keeps a long in these two. -/
theorem pair_of_locals_is_private :
    let m := (Operation.applyAll [.loadRom 0 [1, 3], .reset 34]
      (Machine.new ⟨32, 0, 0, 16, by decide⟩)).after (.word .push 9)
    let m' := m.after (.long .call 32)
    let k := m'.after (.long .push 0x123456)
    let k' := k.after (.word (.storeLocal .long) 1)
    (m'.after (.word (.loadLocal .word) 0)).memory.wordsFrom 13 1 = [9] ∧
      k'.memory.word 5 = 9 ∧
      (k'.after (.word (.loadLocal .long) 1)).memory.wordsFrom 13 2 = [0x123, 0x456] ∧
      (k'.after (.plain .ret)).pc = 39 ∧ (k'.after (.plain .ret)).sp = 4 := by
  intro m m' k k'
  have start : WellFormed ⟨32, 0, 0, 16, by decide⟩ (Operation.applyAll
      [.loadRom 0 [1, 3], .reset 34] (Machine.new ⟨32, 0, 0, 16, by decide⟩)).toCpu :=
    (WellFormed.new _).applyAll _
  have formed : WellFormed ⟨32, 0, 0, 16, by decide⟩ m.toCpu :=
    wellFormed_of_executes start (Machine.executes_after (i := .word .push 9) (by decide +kernel))
  have run : m.Executes (.long .call 32) m' := Machine.executes_after (by decide +kernel)
  have pushes : m'.Executes (.long .push 0x123456) k := Machine.executes_after (by decide +kernel)
  have entered : WellFormed ⟨32, 0, 0, 16, by decide⟩ m'.toCpu := wellFormed_of_executes formed run
  have formed' : WellFormed ⟨32, 0, 0, 16, by decide⟩ k.toCpu := wellFormed_of_executes entered pushes
  have at_fp : m'.fp = 8 := by decide +kernel
  have at_sp : m'.sp = 12 := by decide +kernel
  obtain ⟨parameter, later⟩ := locals_are_parameters_and_private formed.masked formed.fp_lt
    (.call 32 run) (by decide +kernel) (by decide +kernel) (by decide +kernel)
  have kept : Agree (InHeader m'.fp) m'.memory k.memory := by
    obtain ⟨_, hp, -⟩ := ok_of_bind_pure (pushes.runs fun op => Instruction.noConfusion)
    refine (pushed_of_pushLong hp).agree.mono fun a ha i hi he => ?_
    obtain ⟨j, hj, rfl⟩ := ha
    have hi' : i < 2 := hi
    have hj' : j < 5 := hj
    simp only [slot, at_fp, at_sp, toLong] at he
    omega
  obtain ⟨-, stored⟩ := later k (by decide +kernel) kept formed'.masked formed'.sp_lt
  have stores : k.Executes (.word (.storeLocal .long) 1) k' :=
    Machine.executes_after (by decide +kernel)
  obtain ⟨-, -, -, -, others, back, -, leaves⟩ := stored .long 1 k' (by decide +kernel) stores
  have loads : m'.Executes (.word (.loadLocal .word) 0) (m'.after (.word (.loadLocal .word) 0)) :=
    Machine.executes_after (by decide +kernel)
  have loads' : k'.Executes (.word (.loadLocal .long) 1) (k'.after (.word (.loadLocal .long) 1)) :=
    Machine.executes_after (by decide +kernel)
  have returns : k'.Executes (.plain .ret) (k'.after (.plain .ret)) :=
    Machine.executes_after (by decide +kernel)
  have first : m.memory.wordsFrom (TwelveBit.back m.sp (m.memory.word 32) + 1 + 0) 1 = [9] := by
    decide +kernel
  have value : k.toCpu.top 2 = [0x123, 0x456] := by decide +kernel
  have base : m'.fp - m.memory.word (next 32) = 5 := by decide +kernel
  have nine : Pushed [9] m'.toCpu _ := first ▸ parameter .word 0 _ (by decide +kernel) loads
  have long : Pushed [0x123, 0x456] k'.toCpu _ := value ▸ back _ loads'
  have apart := others 0 (by decide +kernel) (by decide)
  have at_sp' : k'.sp = 12 := by decide +kernel
  obtain ⟨hpc, -, hsp⟩ := leaves _ returns
  refine ⟨?_, ?_, ?_, hpc.trans (by decide +kernel), hsp.trans (by decide +kernel)⟩
  · have pushed := nine.wordsFrom (WordList.nil.cons (by decide))
    rwa [at_sp] at pushed
  · rw [base] at apart
    exact apart.trans (by decide +kernel)
  · have pushed := long.wordsFrom ((WordList.nil.cons (by decide)).cons (by decide))
    rwa [at_sp'] at pushed

theorem run_localBase (c : Cpu) :
    localBase.run c =
      if c.fp + 4 < c.memory.layout.total then .ok (back c.fp (c.memory.word (c.fp + 4))) c
      else .error (.outOfRange (c.fp + 4)) c := by
  simp only [localBase, EStateM.run_bind, EStateM.run_get, run_read]
  by_cases h : c.fp + 4 < c.memory.layout.total
  · simp only [h, if_true, EStateM.run_pure]
  · simp only [h, if_false]

/-- Whatever an instruction does with a local, it finds the locals first. -/
theorem not_executes_local {m k : Machine} {op : WordOp} {j : Nat} {f : Fault}
    (fails : localBase.run m.toCpu = .error f m.toCpu) (hop : op ≠ .push) :
    ¬ m.Executes (.word op j) k := by
  intro run
  obtain ⟨_, hr, -⟩ := ok_of_bind_pure (run.runs fun op => Instruction.noConfusion)
  have found : ¬ ∃ a c, (localAddr j).run m.toCpu = .ok a c := by
    rintro ⟨a, c, h⟩
    obtain ⟨base, h, -⟩ := ok_of_bind_pure h
    rw [fails] at h
    cases h
  cases op with
  | push => exact hop rfl
  | loadLocal | storeLocal | addrLocal =>
    obtain ⟨a, c, h, -⟩ := ok_of_bind hr
    exact found ⟨a, c, h⟩

/-- Where a return goes well, the locals are found by the count that it goes by, and it drops them
all. Only where the header goes round at the end of the address space are they not found: the
address of the count is not brought back into it. -/
theorem local_base_agrees_with_return {m k : Machine} (returns : m.Executes (.plain .ret) k) :
    let base := back m.fp (m.memory.word m.toCpu.countCell)
    k.sp = back base 1 ∧
      (m.fp + 4 < 0x1000000 → localBase.run m.toCpu = .ok base m.toCpu) ∧
      (0x1000000 ≤ m.fp + 4 →
        localBase.run m.toCpu = .error (.outOfRange (m.fp + 4)) m.toCpu ∧
          ∀ op j, op ≠ .push → ¬ ∃ k', m.Executes (.word op j) k') := by
  intro base
  have leaves := returns.runs fun op => Instruction.noConfusion
  have needs := needs_leave m.toCpu
  obtain ⟨mapped, -, -⟩ := needs.holds _ _ leaves
  obtain ⟨-, hk⟩ := needs.eq_of_ok leaves
  have hspace := m.memory.layout.total_le_space
  refine ⟨?_, fun htop => ?_, fun hbeyond => ?_⟩
  · rw [hk]
    show back m.fp (m.memory.word m.toCpu.countCell + 1) = back base 1
    simp only [base, back, toLong]
    omega
  · have hcell : m.toCpu.countCell = m.fp + 4 := toLong_of_lt htop
    rw [run_localBase, ← hcell, if_pos mapped]
  · have fails : localBase.run m.toCpu = .error (.outOfRange (m.fp + 4)) m.toCpu := by
      rw [run_localBase, if_neg (by omega)]
    exact ⟨fails, fun op j hop executes => executes.elim fun k' => not_executes_local fails hop⟩

/-- The frame that a machine starts with has no locals, and its base is the header itself. -/
theorem first_frame_agrees_with_return :
    let m := Machine.new ⟨16, 0, 0, 16, by decide⟩
    let k := m.after (.plain .ret)
    m.Executes (.plain .ret) k ∧ localBase.run m.toCpu = .ok 0 m.toCpu ∧ k.sp = 0xFFFFFF := by
  intro m k
  have run : m.Executes (.plain .ret) k := Machine.executes_after (by decide +kernel)
  obtain ⟨hsp, found, -⟩ := local_base_agrees_with_return run
  have base : back m.fp (m.memory.word m.toCpu.countCell) = 0 := by decide +kernel
  rw [base] at hsp found
  exact ⟨run, found (by decide +kernel), hsp⟩

/-- In a memory that fills the address space and is all zero, every address has a header. -/
theorem header_blank {l : Layout} (hl : l.total = 0x1000000) (fp : Nat) :
    Header (Machine.new l).memory fp 0 0 0 := by
  have hlayout : (Machine.new l).memory.layout = l := (WellFormed.new l).layout_eq
  have blank (a : Nat) : (Machine.new l).memory.word a = 0 := by
    show (Memory.zero l).clearWritable.word a = 0
    rw [word_clearWritable, word_zero]
    exact ite_self 0
  constructor
  case mapped =>
    rintro a ⟨i, -, rfl⟩
    rw [hlayout, hl]
    exact toLong_lt _
  case retHigh | retLow | callerHigh | callerLow | count => exact blank _

/-- The last word of a frame that ends at the end of the address space is the one at 0; a return
finds it there, but nothing else does. -/
theorem count_beyond {l : Layout} (hl : l.total = 0x1000000) :
    let m : Machine := { Machine.new l with fp := 0xFFFFFC }
    m.fp < 0x1000000 ∧ (∃ k, m.Executes (.plain .ret) k) ∧
      ∀ base c, localBase.run m.toCpu ≠ .ok base c := by
  intro m
  have hlayout : m.memory.layout = l := (WellFormed.new l).layout_eq
  have hfp : m.fp = 0xFFFFFC := rfl
  have hlt : m.fp < 0x1000000 := by
    rw [hfp]
    decide
  have header : Header m.memory m.fp 0 0 0 := header_blank hl _
  refine ⟨hlt, (returns_of_header hlt header).1, fun base c h => ?_⟩
  rw [run_localBase, hlayout, hl, hfp, if_neg (by decide)] at h
  cases h

/-- A return goes well where no local is found. -/
theorem return_goes_without_local_base :
    let m : Machine := { Machine.new ⟨0x1000000, 0, 0, 0, by decide⟩ with fp := 0xFFFFFC }
    m.fp < 0x1000000 ∧ (∃ k, m.Executes (.plain .ret) k) ∧
      ∀ base c, localBase.run m.toCpu ≠ .ok base c :=
  count_beyond (l := ⟨0x1000000, 0, 0, 0, by decide⟩) rfl

end TwelveBit
