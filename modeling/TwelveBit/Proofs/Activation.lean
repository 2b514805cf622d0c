import TwelveBit.Proofs.CallReturn
/-!
Activations of routines and handlers. An activation enters a frame, works in it, lets others come
and go above it, and leaves it again. However deep they are nested, every one of them gives the
caller its frame back, with the results where the parameters were.
-/
namespace TwelveBit
open Cpu Memory TwelveBit.Frame

structure Callable (target : Nat) (c : Cpu) : Prop where
  params_above : c.fp + 4 + c.memory.word target ≤ c.sp
  fits : c.sp - c.memory.word target + c.memory.word (next target) + 5 < 0x1000000

inductive Entry (m e : Machine) : (ret locals floor : Nat) → Prop
  | call (target : Nat) (run : m.Executes (.long .call target) e)
      (callable : Callable target m.toCpu) :
      Entry m e (toLong (m.pc + 3)) (m.memory.word (next target)) (m.sp - m.memory.word target)
  | callAt (target : Nat) (c : Cpu) (popped : popLong.run m.toCpu = .ok target c)
      (run : m.Executes (.plain .callAt) e) (callable : Callable target c) :
      Entry m e (toLong (m.pc + 1)) (c.memory.word (next target)) (c.sp - c.memory.word target)
  | interrupt (irq : Interrupt) (run : m.Delivers irq e)
      (fits : m.sp + irq.args.length + 5 < 0x1000000) :
      Entry m e m.pc irq.args.length m.sp

inductive Own (m : Machine) (locals : Nat) : Instruction → Prop
  | push (v : Nat) (fits : m.sp + 1 < 0x1000000) : Own m locals (.word .push v)
  | pushLong (v : Nat) (fits : m.sp + 2 < 0x1000000) : Own m locals (.long .push v)
  | pop (w : Width) : Own m locals (.plain (.pop w))
  | storeLocal (w : Width) (k : Nat) (inside : k + w.words ≤ locals) :
      Own m locals (.word (.storeLocal w) k)

inductive Leave (b m : Machine) : (results : List Nat) → Prop
  | ret (run : b.Executes (.plain .ret) m) : Leave b m []
  | retWord (run : b.Executes (.plain .retWord) m) (above : b.fp + 5 ≤ b.sp) :
      Leave b m [b.memory.word b.sp]
  | retLong (run : b.Executes (.plain .retLong) m) (above : b.fp + 6 ≤ b.sp) :
      Leave b m [b.memory.word (b.sp - 1), b.memory.word b.sp]

/-- What happens between entering a frame with so many locals and leaving it: own instructions
that stay above the header, and whole activations. -/
inductive Body : (locals : Nat) → (m m' : Machine) → Prop
  | done (locals : Nat) (m : Machine) : Body locals m m
  | own {locals : Nat} {m k m' : Machine} {i : Instruction} (own : Own m locals i)
      (run : m.Executes i k) (above : k.fp + 4 ≤ k.sp) (rest : Body locals k m') : Body locals m m'
  | nested {locals n ret floor : Nat} {results : List Nat} {m e b k m' : Machine}
      (entry : Entry m e ret n floor) (body : Body n e b) (leave : Leave b k results)
      (rest : Body locals k m') : Body locals m m'

inductive Activation (m m' : Machine) (ret floor : Nat) (results : List Nat) : Prop
  | intro {locals : Nat} {e b : Machine} (entry : Entry m e ret locals floor)
      (body : Body locals e b) (leave : Leave b m' results)

variable {l : Layout} {locals ret caller floor : Nat} {results : List Nat}
  {m m' k e b : Machine} {i : Instruction}

structure Inside (l : Layout) (ret caller locals : Nat) (m : Machine) : Prop where
  wellFormed : WellFormed l m.toCpu
  header : Header m.memory m.fp ret caller locals
  above : m.fp + 4 ≤ m.sp
  below : locals < m.fp
  locals_lt : locals < 0x1000

structure Kept (locals : Nat) (m m' : Machine) : Prop where
  fp_eq : m'.fp = m.fp
  agree : Agree (fun a => a + locals < m.fp ∨ InHeader m.fp a) m.memory m'.memory

theorem Kept.refl (locals : Nat) (m : Machine) : Kept locals m m := ⟨rfl, Agree.refl _ _⟩

theorem Kept.trans (h : Kept locals m k) (h' : Kept locals k m') : Kept locals m m' :=
  ⟨h'.fp_eq.trans h.fp_eq, h.agree.trans (h.fp_eq ▸ h'.agree)⟩

namespace Inside

theorem fp_lt (h : Inside l ret caller locals m) : m.fp + 4 < 0x1000000 :=
  Nat.lt_of_le_of_lt h.above h.wellFormed.sp_lt

/-- No address of the header goes round. -/
theorem inHeader_iff (h : Inside l ret caller locals m) (a : Nat) :
    InHeader m.fp a ↔ m.fp ≤ a ∧ a ≤ m.fp + 4 := by
  have hfp := h.fp_lt
  constructor
  · rintro ⟨i, hi, rfl⟩
    have hi' : i < 5 := hi
    rw [toLong_of_lt (by omega)]
    omega
  · rintro ⟨h₁, h₂⟩
    have hi : a - m.fp < 5 := by omega
    refine ⟨a - m.fp, hi, ?_⟩
    rw [Nat.add_sub_cancel' h₁, toLong_of_lt (by omega)]

theorem of_kept (h : Inside l ret caller locals m) (hk : Kept locals m k)
    (hw : WellFormed l k.toCpu) (ha : k.fp + 4 ≤ k.sp) : Inside l ret caller locals k where
  wellFormed := hw
  header := by
    rw [hk.fp_eq]
    exact h.header.of_agree (hk.agree.mono fun a => Or.inr)
  above := ha
  below := by
    rw [hk.fp_eq]
    exact h.below
  locals_lt := h.locals_lt

variable (h : Inside l ret caller locals m)
include h

theorem kept_of_pushed {vs : List Nat} (hp : Pushed vs m.toCpu k.toCpu)
    (fits : m.sp + vs.length < 0x1000000) : Kept locals m k := by
  have above := h.above
  refine ⟨hp.fp_eq, hp.agree.mono fun a ha i hi => ?_⟩
  have hslot : m.slot i = m.sp + 1 + i := toLong_of_lt (by omega)
  rw [h.inHeader_iff] at ha
  rw [hslot]
  omega

/-- The locals lie right below the header, and none of them goes round. -/
theorem run_localAddr_of_lt {j : Nat} (hj : j < locals) :
    (localAddr j).run m.toCpu = .ok (m.fp - locals + j) m.toCpu := by
  have hfp := h.fp_lt
  have below := h.below
  have haddr : toLong (back m.fp locals + j) = m.fp - locals + j := by
    simp only [back, toLong]
    omega
  rw [run_localAddr hfp h.header, toWord_of_lt h.locals_lt, haddr]

theorem kept_of_storeLocal {w : Width} {j : Nat} (hj : j + w.words ≤ locals)
    (hr : m.Executes (.word (.storeLocal w) j) k) : Kept locals m k := by
  have hfp := h.fp_lt
  have below := h.below
  have hw : 0 < w.words := by cases w <;> decide
  obtain ⟨_, hx, -⟩ := ok_of_bind_pure (hr.runs nofun)
  obtain ⟨a, c, haddr, hx⟩ := ok_of_bind hx
  rw [h.run_localAddr_of_lt (by omega)] at haddr
  cases haddr
  obtain ⟨v, d, hpop, hstore⟩ := ok_of_bind hx
  obtain rfl := ok_of_popAt hpop
  obtain ⟨memory, hk, hagree⟩ := ok_of_writeAt hstore
  have hmem : k.memory = memory := by rw [hk]
  have hfp' : k.fp = m.fp := by rw [hk]
  refine ⟨hfp', hmem ▸ hagree.mono fun a ha => ?_⟩
  rw [h.inHeader_iff] at ha
  refine ⟨by omega, ?_⟩
  -- a long local has its second word among the locals too
  rintro rfl
  have hj' : j + 2 ≤ locals := hj
  have hnext : next (m.fp - locals + j) = m.fp - locals + j + 1 := toLong_of_lt (by omega)
  rw [hnext]
  omega

theorem kept_of_own (own : Own m locals i) (hr : m.Executes i k) : Kept locals m k := by
  cases own with
  | push v fits =>
    obtain ⟨_, hp, -⟩ := ok_of_bind_pure (hr.runs nofun)
    exact h.kept_of_pushed (pushed_of_push hp) fits
  | pushLong v fits =>
    obtain ⟨_, hp, -⟩ := ok_of_bind_pure (hr.runs nofun)
    exact h.kept_of_pushed (pushed_of_pushLong hp) fits
  | pop w =>
    obtain ⟨_, hp, -⟩ := ok_of_bind_pure (hr.runs nofun)
    have hk := ok_of_popAt hp
    have hmem : k.memory = m.memory := by rw [hk]
    have hfp : k.fp = m.fp := by rw [hk]
    exact ⟨hfp, hmem ▸ Agree.refl _ _⟩
  | storeLocal w j inside => exact h.kept_of_storeLocal inside hr

end Inside

structure Opened (ret locals floor : Nat) (m e : Machine) : Prop where
  fp_eq : e.fp = floor + locals + 1
  sp_eq : e.sp = floor + locals + 5
  header : Header e.memory e.fp ret m.fp locals
  agree : Agree (· ≤ floor) m.memory e.memory

theorem opened_of_entered {vs : List Nat} {c : Cpu} (he : Entered vs ret locals c e.toCpu)
    (hmem : c.memory = m.memory) (hfp : c.fp = m.fp) (hsp : c.sp + vs.length = floor + locals)
    (hfloor : floor ≤ c.sp) (fits : floor + locals + 5 < 0x1000000) :
    Opened ret locals floor m e where
  fp_eq := by rw [he.fp_eq, hsp, toLong_of_lt (by omega)]
  sp_eq := by rw [he.sp_eq, hsp, toLong_of_lt fits]
  header := hfp ▸ he.header
  agree := by
    rw [← hmem]
    refine he.agree.mono fun a ha i hi => ?_
    have hslot : c.slot i = c.sp + 1 + i := toLong_of_lt (by omega)
    rw [hslot]
    omega

/-- The locals that are no parameters are skipped, so the new header lies above all of them. -/
theorem opened_of_call {c : Cpu} {target : Nat} (hmem : c.memory = m.memory) (hfp : c.fp = m.fp)
    (hmask : m.memory.Masked) (callable : Callable target c)
    (hr : (Frame.call target ret).run c = .ok e.pc e.toCpu) :
    Opened ret (c.memory.word (next target)) (c.sp - c.memory.word target) m e := by
  have hparams : c.memory.word target < 0x1000 := hmem ▸ hmask target
  have habove := callable.params_above
  have hfits := callable.fits
  have hsp : back (c.sp + c.memory.word (next target)) (c.memory.word target) =
      c.sp - c.memory.word target + c.memory.word (next target) := by
    simp only [back, toLong]
    omega
  have he := entered_of_call hr
  rw [hsp] at he
  exact opened_of_entered he hmem hfp rfl (Nat.le_add_right _ _) hfits

namespace Entry

theorem opened (hw : WellFormed l m.toCpu) (entry : Entry m e ret locals floor) :
    Opened ret locals floor m e := by
  cases entry with
  | call target run callable =>
    exact opened_of_call rfl rfl hw.masked callable (run.runs nofun)
  | callAt target c popped run callable =>
    obtain ⟨target', c', hpop, hcall⟩ := ok_of_bind (run.runs nofun)
    rw [popped] at hpop
    cases hpop
    obtain ⟨-, rfl⟩ := ok_of_popLong popped
    exact opened_of_call rfl rfl hw.masked callable hcall
  | interrupt irq run fits =>
    have he := entered_of_interrupt hw.sp_lt run.enters
    exact opened_of_entered he rfl rfl rfl (Nat.le_refl _) fits

theorem wellFormed (hw : WellFormed l m.toCpu) (entry : Entry m e ret locals floor) :
    WellFormed l e.toCpu := by
  cases entry with
  | call target run callable => exact wellFormed_of_executes hw run
  | callAt target c popped run callable => exact wellFormed_of_executes hw run
  | interrupt irq run fits => exact wellFormed_of_delivers hw run

theorem locals_lt (hw : WellFormed l m.toCpu) (entry : Entry m e ret locals floor) :
    locals < 0x1000 := by
  cases entry with
  | call target run callable => exact hw.masked _
  | callAt target c popped run callable =>
    obtain ⟨-, rfl⟩ := ok_of_popLong popped
    exact hw.masked _
  | interrupt irq run fits =>
    have hargs := irq.length_args
    omega

/-- A new frame lies above the header of the one it is entered from. -/
theorem floor_above (ha : m.fp + 4 ≤ m.sp) (entry : Entry m e ret locals floor) :
    m.fp + 4 ≤ floor := by
  cases entry with
  | call target run callable =>
    have habove := callable.params_above
    omega
  | callAt target c popped run callable =>
    have habove := callable.params_above
    have hfp : c.fp = m.fp := by rw [(ok_of_popLong popped).2]
    omega
  | interrupt irq run fits => exact ha

theorem inside (hw : WellFormed l m.toCpu) (entry : Entry m e ret locals floor) :
    Inside l ret m.fp locals e := by
  have hopen := entry.opened hw
  have hfp := hopen.fp_eq
  have hsp := hopen.sp_eq
  exact
    { wellFormed := entry.wellFormed hw
      header := hopen.header
      above := by omega
      below := by omega
      locals_lt := entry.locals_lt hw }

end Entry

theorem Leave.carries (hb : WellFormed l b.toCpu) (leave : Leave b m' results) :
    ∃ op next, Carries b.toCpu op results ∧ (op.run next).run b.toCpu = .ok m'.pc m'.toCpu := by
  have plain (op : PlainOp) : ∀ o, Instruction.plain op ≠ .system o := fun _ h => by cases h
  cases leave with
  | ret run => exact ⟨.ret, toLong (b.pc + 1), .ret, run.runs (plain _)⟩
  | retWord run above => exact ⟨.retWord, toLong (b.pc + 1), .retWord, run.runs (plain _)⟩
  | retLong run above =>
    have hback : back b.sp 1 = b.sp - 1 := by
      have hsp := hb.sp_lt
      simp only [back, toLong]
      omega
    exact ⟨.retLong, toLong (b.pc + 1), hback ▸ .retLong, run.runs (plain _)⟩

namespace Inside

/-- The results are pushed where the locals of the frame were. -/
theorem pushed_of_leave (h : Inside l ret caller locals b) (hc : caller < 0x1000000)
    (leave : Leave b m' results) :
    m'.pc = toLong ret ∧
      Pushed results { b.toCpu with sp := b.fp - (locals + 1), fp := caller } m'.toCpu := by
  have below := h.below
  have hfp := h.wellFormed.fp_lt
  have hsp : back b.fp (toWord locals + 1) = b.fp - (locals + 1) := by
    rw [toWord_of_lt h.locals_lt]
    simp only [back, toLong]
    omega
  obtain ⟨op, next, carries, hr⟩ := leave.carries h.wellFormed
  have hp := pushed_of_return h.wellFormed.masked hfp h.header carries hr
  rw [hsp, toLong_of_lt hc] at hp
  exact hp

end Inside

namespace Leave

theorem length_le (leave : Leave b m' results) : results.length ≤ 2 := by
  cases leave <;> simp

theorem masked (hb : WellFormed l b.toCpu) (leave : Leave b m' results) :
    ∀ v ∈ results, v < 0x1000 := by
  obtain ⟨op, next, carries, -⟩ := leave.carries hb
  exact carries.masked hb.masked

theorem wellFormed (hb : WellFormed l b.toCpu) (leave : Leave b m' results) :
    WellFormed l m'.toCpu := by
  cases leave with
  | ret run => exact wellFormed_of_executes hb run
  | retWord run above => exact wellFormed_of_executes hb run
  | retLong run above => exact wellFormed_of_executes hb run

end Leave

structure Returned (ret floor : Nat) (results : List Nat) (m m' : Machine) : Prop where
  pc_eq : m'.pc = toLong ret
  fp_eq : m'.fp = m.fp
  sp_eq : m'.sp = floor + results.length
  result : ∀ i (h : i < results.length), m'.memory.word (floor + 1 + i) = results[i]
  agree : Agree (· ≤ floor) m.memory m'.memory

theorem returned_of_leave (hw : WellFormed l m.toCpu) (entry : Entry m e ret locals floor)
    (hk : Kept locals e b) (hb : Inside l ret m.fp locals b) (leave : Leave b m' results) :
    Returned ret floor results m m' := by
  have hopen := entry.opened hw
  have hlen := leave.length_le
  have hfp : b.fp = floor + locals + 1 := hk.fp_eq.trans hopen.fp_eq
  have hend : b.fp + 4 < 0x1000000 := hb.fp_lt
  have hfloor : b.fp - (locals + 1) = floor := by omega
  obtain ⟨hpc, hp⟩ := hb.pushed_of_leave hw.fp_lt leave
  rw [hfloor] at hp
  have hslot (i : Nat) (hi : i < results.length) : toLong (floor + 1 + i) = floor + 1 + i :=
    toLong_of_lt (by omega)
  constructor
  case pc_eq => exact hpc
  case fp_eq => exact hp.fp_eq
  case sp_eq =>
    have hsp : m'.sp = toLong (floor + results.length) := hp.sp_eq
    rw [hsp, toLong_of_lt (by omega)]
  case result =>
    intro i hi
    have hlt : results[i] < 0x1000 := leave.masked hb.wellFormed _ (List.getElem_mem hi)
    have hword := hp.word_slot i hi
    rw [slot, hslot i hi, toWord_of_lt hlt] at hword
    exact hword
  case agree =>
    -- below the floor nothing has been written, in the body or by the results
    have h₁ : Agree (· ≤ floor) e.memory b.memory :=
      hk.agree.mono fun a ha => Or.inl (by rw [hopen.fp_eq]; omega)
    have h₂ : Agree (· ≤ floor) b.memory m'.memory :=
      hp.agree.mono fun a ha i hi => by rw [slot, hslot i hi]; omega
    exact hopen.agree.trans (h₁.trans h₂)

theorem Inside.kept_of_returned (h : Inside l ret caller locals m) {ret' : Nat}
    (hfloor : m.fp + 4 ≤ floor) (hr : Returned ret' floor results m k) : Kept locals m k := by
  refine ⟨hr.fp_eq, hr.agree.mono fun a ha => ?_⟩
  rw [h.inHeader_iff] at ha
  omega

/-- Whatever happens in a frame, the frame is still there at the end. -/
theorem Body.kept (body : Body locals m m') :
    ∀ {ret caller : Nat}, Inside l ret caller locals m →
      Inside l ret caller locals m' ∧ Kept locals m m' := by
  induction body with
  | done locals m => exact fun h => ⟨h, Kept.refl locals m⟩
  | own own run above _ ih =>
    intro ret caller h
    have hk := h.kept_of_own own run
    have hw := wellFormed_of_executes h.wellFormed run
    obtain ⟨h', hk'⟩ := ih (h.of_kept hk hw above)
    exact ⟨h', hk.trans hk'⟩
  | @nested locals n ret' floor results m e b k m' entry _ leave _ ihBody ihRest =>
    intro ret caller h
    obtain ⟨hb, hkb⟩ := ihBody (entry.inside h.wellFormed)
    -- the inner activation is complete, so what it comes to is all that matters out here
    have hr := returned_of_leave h.wellFormed entry hkb hb leave
    have hfloor := entry.floor_above h.above
    have hk := h.kept_of_returned hfloor hr
    have hw := leave.wellFormed hb.wellFormed
    have above : k.fp + 4 ≤ k.sp := by
      rw [hr.fp_eq, hr.sp_eq]
      exact Nat.le_add_right_of_le hfloor
    obtain ⟨h', hk'⟩ := ihRest (h.of_kept hk hw above)
    exact ⟨h', hk.trans hk'⟩

/-- An activation gives the caller its frame back, however many others have come and gone in
it. -/
theorem activation_returns (hw : WellFormed l m.toCpu)
    (activation : Activation m m' ret floor results) : Returned ret floor results m m' := by
  obtain ⟨entry, body, leave⟩ := activation
  obtain ⟨hb, hk⟩ := body.kept (entry.inside hw)
  exact returned_of_leave hw entry hk hb leave

/-- A key is pressed, the handler calls a routine with one parameter and two locals, and the result
of the routine becomes the result of the handler. -/
theorem key_activation_returns :
    let m := Operation.applyAll [.loadRom 0 [1, 2]] (Machine.new ⟨32, 0, 0, 16, by decide⟩)
    ∃ m', Activation m m' m.pc 4 [9] ∧ m'.pc = m.pc ∧ m'.fp = 0 ∧ m'.sp = 5 ∧
      m'.memory.word 5 = 9 := by
  intro m
  let e := (leftBehind ((Machine.deliver Host.idle (.key 3 true) 0x2C).run (m, ()))).1
  let k₁ := e.after (.word .push 7)
  let k₂ := k₁.after (.long .call 0x20)
  let k₃ := k₂.after (.word .push 8)
  let k₄ := k₃.after (.word (.storeLocal .word) 1)
  let k₅ := k₄.after (.word .push 9)
  let k₆ := k₅.after (.plain .retWord)
  let k₇ := k₆.after (.plain .retWord)
  have entered : m.Delivers (.key 3 true) e := ⟨Unit, Host.idle, (), (), 0x2C, rfl, rfl⟩
  have called : Entry k₁ k₂ (toLong (k₁.pc + 3)) 2 11 := by
    have hlocals : k₁.memory.word (next 0x20) = 2 := by decide +kernel
    have hfloor : k₁.sp - k₁.memory.word 0x20 = 11 := by decide +kernel
    rw [← hlocals, ← hfloor]
    exact .call 0x20 (Machine.executes_after (by decide +kernel))
      ⟨by decide +kernel, by decide +kernel⟩
  have inner : Body 2 k₂ k₅ := by
    refine .own (.push 8 ?_) (Machine.executes_after ?_) ?_
      (.own (.storeLocal .word 1 ?_) (Machine.executes_after ?_) ?_
        (.own (.push 9 ?_) (Machine.executes_after ?_) ?_ (.done 2 k₅)))
    all_goals decide +kernel
  have left : Leave k₅ k₆ [9] := by
    have hresult : k₅.memory.word k₅.sp = 9 := by decide +kernel
    rw [← hresult]
    exact .retWord (Machine.executes_after (by decide +kernel)) (by decide +kernel)
  have outer : Body 2 e k₆ := by
    refine .own (.push 7 ?_) (Machine.executes_after ?_) ?_ (.nested called inner left (.done 2 k₆))
    all_goals decide +kernel
  have whole : Activation m k₇ m.pc 4 [9] := by
    have hresult : k₆.memory.word k₆.sp = 9 := by decide +kernel
    rw [← hresult]
    exact .intro (.interrupt (.key 3 true) entered (by decide)) outer
      (.retWord (Machine.executes_after (by decide +kernel)) (by decide +kernel))
  have h := activation_returns ((WellFormed.new _).applyAll _) whole
  exact ⟨k₇, whole, h.pc_eq, h.fp_eq, h.sp_eq, h.result 0 Nat.one_pos⟩

end TwelveBit
