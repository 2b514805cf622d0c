import TwelveBit.Frame
import TwelveBit.Proofs.MemoryChange
/-!
What pushes leave in memory, and from it what a frame looks like once it has been entered. Stack
addresses go round at the end of the address space, so all of them are taken modulo its size.
-/
namespace TwelveBit
open Memory

def Width.words : Width → Nat
  | word => 1
  | long => 2

namespace Cpu
variable {c c' d : Cpu} {vs ws : List Nat}

def slot (c : Cpu) (i : Nat) : Nat := toLong (c.sp + 1 + i)

theorem slot_inj {i j : Nat} (hi : i < 0x1000000) (hj : j < 0x1000000)
    (h : c.slot i = c.slot j) : i = j := by
  simp only [slot, toLong] at h
  omega

structure Pushed (vs : List Nat) (c c' : Cpu) : Prop where
  sp_eq : c'.sp = toLong (c.sp + vs.length)
  fp_eq : c'.fp = c.fp
  carry_eq : c'.carry = c.carry
  writable : ∀ i < vs.length, c.slot i < c.memory.layout.romBase
  word_slot : ∀ i (h : i < vs.length), c'.memory.word (c.slot i) = toWord vs[i]
  agree : Agree (fun a => ∀ i < vs.length, a ≠ c.slot i) c.memory c'.memory

theorem Pushed.nil (h : c.sp < 0x1000000) : Pushed [] c c where
  sp_eq := (toLong_of_lt h).symm
  fp_eq := rfl
  carry_eq := rfl
  writable _ h := absurd h (Nat.not_lt_zero _)
  word_slot _ h := absurd h (Nat.not_lt_zero _)
  agree := Agree.refl _ _

theorem Pushed.slot_eq (h : Pushed vs c d) (i : Nat) : d.slot i = c.slot (vs.length + i) := by
  simp only [slot, h.sp_eq, toLong]
  omega

/-- The slots of all pushes are different as long as the stack does not meet its own start. -/
theorem Pushed.append (h : Pushed vs c d) (h' : Pushed ws d c')
    (hlen : (vs ++ ws).length ≤ 0x1000000) : Pushed (vs ++ ws) c c' := by
  have hl : (vs ++ ws).length = vs.length + ws.length := List.length_append
  -- a slot of the whole is one of the first pushes or one of the others
  have split_lt {i : Nat} (hi : i < (vs ++ ws).length) :
      i < vs.length ∨
        vs.length ≤ i ∧ i - vs.length < ws.length ∧ c.slot i = d.slot (i - vs.length) := by
    by_cases hv : i < vs.length
    · exact Or.inl hv
    · have hle : vs.length ≤ i := Nat.not_lt.1 hv
      have he : vs.length + (i - vs.length) = i := Nat.add_sub_cancel' hle
      refine Or.inr ⟨hle, by omega, ?_⟩
      rw [h.slot_eq, he]
  constructor
  case sp_eq =>
    rw [h'.sp_eq, h.sp_eq, hl]
    simp only [toLong]
    omega
  case fp_eq => exact h'.fp_eq.trans h.fp_eq
  case carry_eq => exact h'.carry_eq.trans h.carry_eq
  case writable =>
    intro i hi
    obtain hv | ⟨-, hw, he⟩ := split_lt hi
    · exact h.writable i hv
    · have := h'.writable _ hw
      rwa [he, ← h.agree.layout_eq]
  case word_slot =>
    intro i hi
    obtain hv | ⟨hle, hw, he⟩ := split_lt hi
    · have away : ∀ j < ws.length, c.slot i ≠ d.slot j := by
        intro j hj heq
        rw [h.slot_eq] at heq
        have := slot_inj (by omega) (by omega) heq
        omega
      rw [h'.agree.word_eq _ away, h.word_slot i hv, List.getElem_append_left hv]
    · rw [he, h'.word_slot _ hw, List.getElem_append_right hle]
  case agree =>
    refine (h.agree.mono fun a ha i hi => ha i (by omega)).trans (h'.agree.mono fun a ha i hi => ?_)
    rw [h.slot_eq]
    exact ha _ (by omega)

theorem pushed_of_push {v : Nat} (h : (push v).run c = .ok () c') : Pushed [v] c c' := by
  rw [run_push] at h
  cases hr : c.memory.refusal? (next c.sp) with
  | some f => simp only [hr, reduceCtorEq] at h
  | none =>
    have hlt : next c.sp < c.memory.layout.romBase := (c.memory.refusal?_eq_none_iff _).1 hr
    have htotal := c.memory.layout.romBase_le_total
    simp only [hr] at h
    cases h
    constructor
    case sp_eq | fp_eq | carry_eq => rfl
    case writable =>
      intro i hi
      obtain rfl : i = 0 := Nat.lt_one_iff.1 hi
      exact hlt
    case word_slot =>
      intro i hi
      obtain rfl : i = 0 := Nat.lt_one_iff.1 hi
      exact (word_put _ _ _ _).trans (if_pos ⟨rfl, by omega⟩)
    case agree => exact Agree.set _ _ fun ha => ha 0 Nat.one_pos rfl

theorem pushed_of_pushLong {v : Nat} (h : (pushLong v).run c = .ok () c') :
    Pushed [high v, low v] c c' := by
  obtain ⟨_, d, h₁, h₂⟩ := ok_of_bind h
  exact (pushed_of_push h₁).append (pushed_of_push h₂) (by simp)

theorem pushed_of_pushAll (hsp : c.sp < 0x1000000) (hlen : vs.length ≤ 0x1000000)
    (h : (pushAll vs).run c = .ok () c') : Pushed vs c c' := by
  induction vs generalizing c with
  | nil =>
    cases h
    exact Pushed.nil hsp
  | cons v vs ih =>
    obtain ⟨_, d, h₁, h₂⟩ := ok_of_bind h
    have hd : Pushed [v] c d := pushed_of_push h₁
    have hdsp : d.sp < 0x1000000 := hd.sp_eq ▸ toLong_lt _
    have hlen' : vs.length ≤ 0x1000000 := by
      rw [List.length_cons] at hlen
      omega
    exact hd.append (ih hdsp hlen' h₂) hlen

def Room (n : Nat) (c : Cpu) : Prop := c.sp + n < c.memory.layout.romBase

theorem Room.push {n : Nat} (h : Room (n + 1) c) (v : Nat) :
    ∃ c', (push v).run c = .ok () c' ∧ Room n c' := by
  have hspace := c.memory.layout.total_le_space
  have htotal := c.memory.layout.romBase_le_total
  unfold Room at h
  have hnext : next c.sp = c.sp + 1 := toLong_of_lt (by omega)
  have hr : c.memory.refusal? (next c.sp) = none :=
    (c.memory.refusal?_eq_none_iff _).2 (by rw [hnext]; omega)
  refine ⟨_, by rw [run_push, hr], ?_⟩
  show next c.sp + n < c.memory.layout.romBase
  rw [hnext]
  omega

theorem Room.pushLong {n : Nat} (h : Room (n + 2) c) (v : Nat) :
    ∃ c', (pushLong v).run c = .ok () c' ∧ Room n c' := by
  obtain ⟨d, h₁, hd⟩ := Room.push (n := n + 1) h (high v)
  obtain ⟨e, h₂, he⟩ := hd.push (low v)
  exact ⟨e, by simp only [Cpu.pushLong, EStateM.run_bind, h₁, h₂], he⟩

theorem Room.pushAll {n : Nat} (h : Room (n + vs.length) c) :
    ∃ c', (pushAll vs).run c = .ok () c' ∧ Room n c' := by
  induction vs generalizing c with
  | nil => exact ⟨c, rfl, h⟩
  | cons v vs ih =>
    obtain ⟨d, h₁, hd⟩ := Room.push (n := n + vs.length) h v
    obtain ⟨e, h₂, he⟩ := ih hd
    exact ⟨e, by simp only [Cpu.pushAll, EStateM.run_bind, h₁, h₂], he⟩

theorem ok_of_read {a v : Nat} (h : (read a).run c = .ok v c') :
    v = c.memory.word a ∧ c' = c := by
  rw [run_read] at h
  split at h
  · cases h
    exact ⟨rfl, rfl⟩
  · cases h

theorem ok_of_pop {v : Nat} (h : pop.run c = .ok v c') :
    v = c.memory.word c.sp ∧ c' = { c with sp := back c.sp 1 } := by
  rw [run_pop] at h
  split at h
  · cases h
    exact ⟨rfl, rfl⟩
  · cases h

theorem ok_of_popLong {v : Nat} (h : popLong.run c = .ok v c') :
    v = join (c.memory.word (back c.sp 1)) (c.memory.word c.sp) ∧
      c' = { c with sp := back c.sp 2 } := by
  obtain ⟨low, d, h₁, h⟩ := ok_of_bind h
  obtain ⟨high, e, h₂, h⟩ := ok_of_bind h
  cases h
  obtain ⟨rfl, rfl⟩ := ok_of_pop h₁
  obtain ⟨rfl, rfl⟩ := ok_of_pop h₂
  have hsp : back (back c.sp 1) 1 = back c.sp 2 := by
    simp only [back, toLong]
    omega
  exact ⟨rfl, congrArg (fun sp => { c with sp := sp }) hsp⟩

theorem ok_of_popAt {w : Width} {v : Nat} (h : (popAt w).run c = .ok v c') :
    c' = { c with sp := back c.sp w.words } := by
  cases w with
  | word => exact (ok_of_pop h).2
  | long => exact (ok_of_popLong h).2

/-- A store of either width writes at an address, and a long also behind it. -/
theorem ok_of_writeAt {w : Width} {a v : Nat} (h : (writeAt w a v).run c = .ok () c') :
    ∃ m, c' = { c with memory := m } ∧
      Agree (fun b => b ≠ a ∧ (w = .long → b ≠ next a)) c.memory m := by
  cases w with
  | word =>
    rw [writeAt, run_write] at h
    cases hr : c.memory.refusal? a with
    | some f => simp only [hr, reduceCtorEq] at h
    | none =>
      simp only [hr] at h
      cases h
      exact ⟨_, rfl, Agree.set _ _ fun ha => ha.1 rfl⟩
  | long =>
    rw [writeAt, run_onMemory, run_writeLong] at h
    cases hr : (c.memory.refusal? a).or (c.memory.refusal? (next a)) with
    | some f => simp only [hr, reduceCtorEq] at h
    | none =>
      simp only [hr] at h
      cases h
      have first := Agree.set (P := fun b => b ≠ a ∧ (Width.long = .long → b ≠ next a))
        (m := c.memory) a (toWord (high v)) fun ha => ha.1 rfl
      exact ⟨_, rfl, first.trans (Agree.set _ _ fun ha => ha.2 rfl rfl)⟩

end Cpu

namespace Frame
open Cpu
variable {c c' : Cpu} {m n : Memory} {fp ret caller locals : Nat}

def InHeader (fp a : Nat) : Prop := ∃ i < headerSize, a = toLong (fp + i)

structure Header (m : Memory) (fp ret caller locals : Nat) : Prop where
  mapped : ∀ a, InHeader fp a → a < m.layout.total
  retHigh : m.word (toLong fp) = high ret
  retLow : m.word (toLong (fp + 1)) = low ret
  callerHigh : m.word (toLong (fp + 2)) = high caller
  callerLow : m.word (toLong (fp + 3)) = low caller
  count : m.word (toLong (fp + 4)) = toWord locals

theorem Header.of_agree (h : Header m fp ret caller locals) (ha : Agree (InHeader fp) m n) :
    Header n fp ret caller locals where
  mapped a hin := by
    rw [ha.layout_eq]
    exact h.mapped a hin
  retHigh := (ha.word_eq _ ⟨0, by decide, rfl⟩).trans h.retHigh
  retLow := (ha.word_eq _ ⟨1, by decide, rfl⟩).trans h.retLow
  callerHigh := (ha.word_eq _ ⟨2, by decide, rfl⟩).trans h.callerHigh
  callerLow := (ha.word_eq _ ⟨3, by decide, rfl⟩).trans h.callerLow
  count := (ha.word_eq _ ⟨4, by decide, rfl⟩).trans h.count

structure Entered (vs : List Nat) (ret locals : Nat) (c c' : Cpu) : Prop where
  sp_eq : c'.sp = toLong (c.sp + vs.length + 5)
  fp_eq : c'.fp = toLong (c.sp + vs.length + 1)
  carry_eq : c'.carry = c.carry
  word_slot : ∀ i (h : i < vs.length), c'.memory.word (c.slot i) = toWord vs[i]
  slot_mapped : ∀ i < vs.length, c.slot i < c'.memory.layout.total
  header : Header c'.memory c'.fp ret c.fp locals
  agree : Agree (fun a => ∀ i < vs.length + 5, a ≠ c.slot i) c.memory c'.memory

def headerWords (ret caller locals : Nat) : List Nat :=
  [high ret, low ret, high caller, low caller, locals]

@[simp]
theorem length_headerWords : (headerWords ret caller locals).length = 5 := rfl

theorem pushed_of_enter (h : (enter ret locals).run c = .ok () c') :
    ∃ d, Pushed (headerWords ret c.fp locals) c d ∧ c' = { d with fp := next c.sp } := by
  obtain ⟨_, _, hget, h⟩ := ok_of_bind h
  cases hget
  obtain ⟨_, c₁, h₁, h⟩ := ok_of_bind h
  obtain ⟨_, c₂, h₂, h⟩ := ok_of_bind h
  obtain ⟨_, c₃, h₃, h⟩ := ok_of_bind h
  have first := (pushed_of_pushLong h₁).append (pushed_of_pushLong h₂) (by simp)
  have all := first.append (pushed_of_push h₃) (by simp)
  rw [EStateM.run_modify] at h
  cases h
  exact ⟨c₃, all, rfl⟩

theorem ok_of_room (h : Room 5 c) (ret locals : Nat) :
    ∃ c', (enter ret locals).run c = .ok () c' := by
  obtain ⟨c₁, h₁, r₁⟩ := Room.pushLong (n := 3) h ret
  obtain ⟨c₂, h₂, r₂⟩ := Room.pushLong (n := 1) r₁ c.fp
  obtain ⟨c₃, h₃, -⟩ := Room.push (n := 0) r₂ locals
  refine ⟨{ c₃ with fp := next c.sp }, ?_⟩
  simp only [enter, EStateM.run_bind, EStateM.run_get, h₁, h₂, h₃, EStateM.run_modify]

/-- An interrupt is delivered as long as there is room for its words and a header. -/
theorem interrupt_of_room {irq : Interrupt} (h : Room (5 + irq.args.length) c) :
    ∃ c', (interrupt irq ret).run c = .ok () c' := by
  obtain ⟨d, h₁, hd⟩ := h.pushAll
  obtain ⟨e, h₂⟩ := ok_of_room hd ret irq.args.length
  exact ⟨e, by simp only [interrupt, EStateM.run_bind, h₁, h₂]⟩

/-- A frame is entered by pushing, so all that is known of pushes is known of frames. -/
theorem Entered.of_pushed {vs : List Nat} {d : Cpu}
    (h : Pushed (vs ++ headerWords ret c.fp locals) c d) :
    Entered vs ret locals c { d with fp := c.slot vs.length } := by
  have hl : (vs ++ headerWords ret c.fp locals).length = vs.length + 5 := List.length_append
  have hslot (i : Nat) : toLong (c.slot vs.length + i) = c.slot (vs.length + i) := by
    simp only [slot, toLong]
    omega
  have hmapped (i : Nat) (hi : i < vs.length + 5) : c.slot i < d.memory.layout.total := by
    have h₁ := h.writable i (hl ▸ hi)
    have h₂ := c.memory.layout.romBase_le_total
    rw [h.agree.layout_eq]
    omega
  -- the header is the last five of the words that were pushed
  have hword (i : Nat) (hi : i < (headerWords ret c.fp locals).length) :
      d.memory.word (toLong (c.slot vs.length + i)) =
        toWord (headerWords ret c.fp locals)[i] := by
    have hi' : i < 5 := hi
    rw [hslot, h.word_slot _ (by omega), List.getElem_append_right (by omega)]
    simp only [Nat.add_sub_cancel_left]
  have hmask (v : Nat) : toWord (toWord v) = toWord v := toWord_of_lt (toWord_lt v)
  constructor
  case sp_eq => rw [h.sp_eq, hl, Nat.add_assoc]
  case fp_eq => rw [slot, Nat.add_right_comm]
  case carry_eq => exact h.carry_eq
  case word_slot =>
    intro i hi
    rw [h.word_slot i (by omega), List.getElem_append_left hi]
  case slot_mapped => exact fun i hi => hmapped i (by omega)
  case header =>
    constructor
    case mapped =>
      rintro a ⟨i, hi, rfl⟩
      have hi' : i < 5 := hi
      rw [hslot]
      exact hmapped _ (by omega)
    case retHigh => exact (hword 0 (by simp)).trans (hmask _)
    case retLow => exact (hword 1 (by simp)).trans (hmask _)
    case callerHigh => exact (hword 2 (by simp)).trans (hmask _)
    case callerLow => exact (hword 3 (by simp)).trans (hmask _)
    case count => exact hword 4 (by simp)
  case agree => exact hl ▸ h.agree

theorem entered_of_enter (h : (enter ret locals).run c = .ok () c') :
    Entered [] ret locals c c' := by
  obtain ⟨d, hd, rfl⟩ := pushed_of_enter h
  have all : Pushed ([] ++ headerWords ret c.fp locals) c d := hd
  exact Entered.of_pushed all

/-- A handler finds the words of its interrupt where a routine finds its parameters. -/
theorem entered_of_interrupt {irq : Interrupt} (hsp : c.sp < 0x1000000)
    (h : (interrupt irq ret).run c = .ok () c') :
    Entered irq.args ret irq.args.length c c' := by
  have hargs := irq.length_args
  obtain ⟨_, d, h₁, h₂⟩ := ok_of_bind h
  have hd : Pushed irq.args c d := pushed_of_pushAll hsp (by omega) h₁
  obtain ⟨e, he, rfl⟩ := pushed_of_enter h₂
  rw [hd.fp_eq] at he
  have all := hd.append he (by simp; omega)
  have hfp : next d.sp = c.slot irq.args.length := hd.slot_eq 0
  rw [hfp]
  exact Entered.of_pushed all

/-- A call moves the stack pointer over the locals that are no parameters, then it enters. -/
theorem entered_of_call {target pc : Nat} (h : (call target ret).run c = .ok pc c') :
    Entered [] ret (c.memory.word (next target))
      { c with sp := back (c.sp + c.memory.word (next target)) (c.memory.word target) } c' := by
  obtain ⟨params, c₁, h₁, h⟩ := ok_of_bind h
  obtain ⟨locals, c₂, h₂, h⟩ := ok_of_bind h
  obtain ⟨rfl, rfl⟩ := ok_of_read h₁
  obtain ⟨rfl, rfl⟩ := ok_of_read h₂
  obtain ⟨_, c₃, h₃, h⟩ := ok_of_bind h
  rw [EStateM.run_modify] at h₃
  cases h₃
  obtain ⟨_, c₄, h₄, h⟩ := ok_of_bind h
  cases h
  exact entered_of_enter h₄

theorem run_read_of_lt {a : Nat} (h : a < c.memory.layout.total) :
    (read a).run c = .ok (c.memory.word a) c := by
  rw [run_read, if_pos h]

theorem run_readAt_long_of_lt {a : Nat} (h : a < c.memory.layout.total)
    (h' : next a < c.memory.layout.total) :
    (readAt .long a).run c = .ok (join (c.memory.word a) (c.memory.word (next a))) c := by
  simp only [readAt, EStateM.run_bind, run_read_of_lt h, run_read_of_lt h', EStateM.run_pure]

/-- A return goes by the header alone, whatever lies above it. It writes nothing. -/
theorem run_leave (hfp : c.fp < 0x1000000) (h : Header c.memory c.fp ret caller locals) :
    leave.run c =
      .ok (toLong ret) { c with sp := back c.fp (toWord locals + 1), fp := toLong caller } := by
  have mapped (i : Nat) (hi : i < 5) : toLong (c.fp + i) < c.memory.layout.total :=
    h.mapped _ ⟨i, hi, rfl⟩
  have at_fp : toLong c.fp = c.fp := toLong_of_lt hfp
  have behind : next (toLong (c.fp + 2)) = toLong (c.fp + 3) := by
    simp only [next, toLong]
    omega
  have hcount : (read (toLong (c.fp + 4))).run c = .ok (toWord locals) c := by
    rw [run_read_of_lt (mapped 4 (by decide)), h.count]
  have hret : (readAt .long c.fp).run c = .ok (toLong ret) c := by
    have h₀ : c.fp < c.memory.layout.total := at_fp ▸ mapped 0 (by decide)
    have hh : c.memory.word c.fp = high ret := at_fp ▸ h.retHigh
    rw [run_readAt_long_of_lt h₀ (mapped 1 (by decide)), hh, next, h.retLow, join_split]
  have hcaller : (readAt .long (toLong (c.fp + 2))).run c = .ok (toLong caller) c := by
    have h₃ : next (toLong (c.fp + 2)) < c.memory.layout.total := behind ▸ mapped 3 (by decide)
    rw [run_readAt_long_of_lt (mapped 2 (by decide)) h₃, behind, h.callerHigh, h.callerLow,
      join_split]
  simp only [leave, EStateM.run_bind, EStateM.run_get, hcount, hret, hcaller, EStateM.run_modify,
    EStateM.run_pure]

/-- The count of locals is read without going round at the end of the address space. -/
theorem run_localAddr (hfp : c.fp + 4 < 0x1000000) (h : Header c.memory c.fp ret caller locals)
    (k : Nat) :
    (localAddr k).run c = .ok (toLong (back c.fp (toWord locals) + k)) c := by
  have at_count : toLong (c.fp + 4) = c.fp + 4 := toLong_of_lt hfp
  have hlt : c.fp + 4 < c.memory.layout.total := at_count ▸ h.mapped _ ⟨4, by decide, rfl⟩
  have hcount : (Cpu.read (c.fp + 4)).run c = .ok (toWord locals) c := by
    rw [run_read_of_lt hlt, ← at_count, h.count]
  simp only [localAddr, localBase, EStateM.run_bind, EStateM.run_get, hcount, EStateM.run_pure]

end Frame
end TwelveBit
