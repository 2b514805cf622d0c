import TwelveBit.Proofs.Locals
/-!
Addressing modes. The address of a value comes with the instruction, or is found from the frame, or
has been pushed as a long. It makes no difference which, except for the cells above the stack that
the pushed address takes up.
-/
namespace TwelveBit
open Cpu Memory

def Machine.ExecutesAll : List Instruction → Machine → Machine → Prop
  | [], m, m' => m' = m
  | i :: is, m, m' => ∃ k, m.Executes i k ∧ ExecutesAll is k m'

/-- From `c` the instructions go well just when `p` holds, and then they come to `d`. -/
structure Leads (p : Prop) (is : List Instruction) (c d : Cpu) : Prop where
  executes_iff : ∀ m : Machine, m.toCpu = c → ((∃ m', m.ExecutesAll is m') ↔ p)
  toCpu_eq : ∀ m m' : Machine, m.toCpu = c → m.ExecutesAll is m' → m'.toCpu = d

structure Machine.Alike (R : Cpu → Cpu → Prop) (is js : List Instruction) (m : Machine) : Prop where
  succeeds_iff : (∃ m', m.ExecutesAll is m') ↔ ∃ m', m.ExecutesAll js m'
  related : ∀ m₁ m₂, m.ExecutesAll is m₁ → m.ExecutesAll js m₂ → R m₁.toCpu m₂.toCpu

theorem Machine.executesAll_append {is js : List Instruction} {m m' : Machine} :
    m.ExecutesAll (is ++ js) m' ↔ ∃ k, m.ExecutesAll is k ∧ k.ExecutesAll js m' := by
  induction is generalizing m with
  | nil => simp only [List.nil_append, ExecutesAll, exists_eq_left]
  | cons i is ih =>
    simp only [List.cons_append, ExecutesAll, ih]
    constructor
    · rintro ⟨k, run, k', runs, rest⟩
      exact ⟨k', ⟨k, run, runs⟩, rest⟩
    · rintro ⟨k', ⟨k, run, runs⟩, rest⟩
      exact ⟨k, run, k', runs, rest⟩

namespace Leads
variable {p q : Prop} {i : Instruction} {is js : List Instruction} {c d d' e : Cpu}

/-- What an instruction does to the processor decides what the machine comes to. -/
theorem of_needs (hi : ∀ op, i ≠ .system op) (h : ∀ next, ∃ pc, Needs p (i.run next) c pc d) :
    Leads p [i] c d := by
  have single (m m' : Machine) : m.ExecutesAll [i] m' ↔ m.Executes i m' := by
    simp only [Machine.ExecutesAll, exists_eq_right']
  constructor
  case executes_iff =>
    rintro m rfl
    obtain ⟨pc, needs⟩ := h (toLong (m.pc + i.size))
    simp only [single]
    exact (Machine.executes_iff hi).trans needs.ok_iff
  case toCpu_eq =>
    rintro m m' rfl run
    obtain ⟨pc, needs⟩ := h (toLong (m.pc + i.size))
    exact (needs.eq_of_ok (((single m m').1 run).runs hi)).2

theorem append (h : Leads p is c d) (h' : p → Leads q js d e) : Leads (p ∧ q) (is ++ js) c e := by
  constructor
  case executes_iff =>
    intro m hm
    simp only [Machine.executesAll_append]
    constructor
    · rintro ⟨m', k, first, second⟩
      have hp : p := (h.executes_iff m hm).1 ⟨k, first⟩
      have hk : k.toCpu = d := h.toCpu_eq m k hm first
      exact ⟨hp, ((h' hp).executes_iff k hk).1 ⟨m', second⟩⟩
    · rintro ⟨hp, hq⟩
      obtain ⟨k, first⟩ := (h.executes_iff m hm).2 hp
      obtain ⟨m', second⟩ := ((h' hp).executes_iff k (h.toCpu_eq m k hm first)).2 hq
      exact ⟨m', k, first, second⟩
  case toCpu_eq =>
    intro m m' hm run
    obtain ⟨k, first, second⟩ := Machine.executesAll_append.1 run
    have hp : p := (h.executes_iff m hm).1 ⟨k, first⟩
    exact (h' hp).toCpu_eq k m' (h.toCpu_eq m k hm first) second

theorem iff (h : Leads p is c d) (hpq : p ↔ q) : Leads q is c d := by rwa [← propext hpq]

theorem always (h : Leads p is c d) : Leads (True ∧ p) is c d := h.iff (and_iff_right trivial).symm

/-- Where the instructions fail it does not matter what they would come to. -/
theorem congr (h : Leads p is c d) (hd : p → d = d') : Leads p is c d' where
  executes_iff := h.executes_iff
  toCpu_eq m m' hm run := (h.toCpu_eq m m' hm run).trans (hd ((h.executes_iff m hm).1 ⟨m', run⟩))

theorem alike {R : Cpu → Cpu → Prop} {m : Machine} (h : Leads p is m.toCpu d)
    (h' : Leads q js m.toCpu e) (hpq : p ↔ q) (hR : p → R d e) : m.Alike R is js where
  succeeds_iff := (h.executes_iff m rfl).trans (hpq.trans (h'.executes_iff m rfl).symm)
  related m₁ m₂ run₁ run₂ := by
    rw [h.toCpu_eq m m₁ rfl run₁, h'.toCpu_eq m m₂ rfl run₂]
    exact hR ((h.executes_iff m rfl).1 ⟨m₁, run₁⟩)

end Leads

namespace Cpu
variable {c d e : Cpu} {w : Width} {vs : List Nat} {n : Nat}

theorem pushed_split (h : Pushable w.words c) (v : Nat) :
    Pushed (w.split v) c (pushing (w.split v) c) := by
  cases w with
  | word => exact pushed_of_push ((needs_push (toWord v)).run_eq h)
  | long => exact pushed_of_pushLong ((needs_pushAt (w := .long) v).run_eq h)

namespace Pushed

theorem top_eq (h : Pushed vs c d) (hvs : WordList n vs) : d.top n = vs := by
  refine (wordsFrom_congr _ ?_ n).trans (h.wordsFrom hvs)
  have hlen := hvs.length_eq
  simp only [h.sp_eq, back, toLong]
  omega

theorem slot_drop (h : Pushed vs c d) (hn : vs.length = n) (i : Nat) :
    (d.drop n).slot i = c.slot i := by
  simp only [drop, slot, h.sp_eq, back, toLong]
  omega

theorem pushable_drop (h : Pushed vs c d) (hn : vs.length = n) (k : Nat) :
    Pushable k (d.drop n) ↔ Pushable k c := by
  have hlayout : (d.drop n).memory.layout = c.memory.layout := h.agree.layout_eq
  simp only [Pushable, h.slot_drop hn, hlayout]

theorem poppable (h : Pushed vs c d) (hn : vs.length = n) : Poppable n d := by
  intro j hj
  have hslot : back d.sp j = c.slot (n - 1 - j) := by
    simp only [h.sp_eq, slot, back, toLong]
    omega
  rw [hslot, h.agree.layout_eq]
  exact (h.writable _ (by omega)).trans_le c.memory.layout.romBase_le_total

end Pushed

end Cpu

def Memory.valueAt (m : Memory) (w : Width) (a : Nat) : Nat := w.value ((w.cells a).map m.word)

namespace Cpu
variable (w : Width) (a v : Nat) (c : Cpu)

def loading : Cpu := pushing (w.split (c.memory.valueAt w a)) c

def storing : Cpu := { c with memory := c.memory.putAt w a v }

def Loadable : Prop := (∀ b ∈ w.cells a, b < c.memory.layout.total) ∧ Pushable w.words c

def Storable : Prop := ∀ b ∈ w.cells a, b < c.memory.layout.romBase

end Cpu

def Instruction.pushValue : Width → Nat → Instruction
  | .word, v => .word .push v
  | .long, v => .long .push v

section Instructions
variable {c : Cpu} {w : Width} {a k v : Nat}

theorem leads_push (w : Width) (v : Nat) (c : Cpu) :
    Leads (Pushable w.words c) [.pushValue w v] c (pushing (w.split v) c) := by
  have push := needs_pushAt (w := w) (c := c) v
  cases w with
  | word => exact Leads.of_needs (fun _ => Instruction.noConfusion) fun _ => ⟨_, push.bind_pure⟩
  | long => exact Leads.of_needs (fun _ => Instruction.noConfusion) fun _ => ⟨_, push.bind_pure⟩

/-- A local is found from the frame pointer and the count of the locals alone. -/
theorem Cpu.localCell_congr {c d : Cpu} (hfp : d.fp = c.fp)
    (count : d.memory.word c.countCell = c.memory.word c.countCell) (k : Nat) :
    d.localCell k = c.localCell k := by
  rw [localCell, countCell, hfp, ← countCell, count, localCell]

theorem leads_addrLocal (k : Nat) (c : Cpu) :
    Leads (c.Counted ∧ Pushable 2 c) [.word .addrLocal k] c
      (pushing (Width.long.split (c.localCell k)) c) := by
  have push := needs_pushAt (w := .long) (c := c) (c.localCell k)
  exact Leads.of_needs (fun _ => Instruction.noConfusion) fun _ =>
    ⟨_, ((needs_localAddr_counted c k).bind push).bind_pure⟩

theorem leads_load (w : Width) (a : Nat) (c : Cpu) :
    Leads (c.Loadable w a) [.long (.load w) a] c (c.loading w a) :=
  Leads.of_needs (fun _ => Instruction.noConfusion) fun _ =>
    ⟨_, (needs_readAt a).bind (needs_pushAt _).bind_pure⟩

theorem leads_loadLocal (w : Width) (k : Nat) (c : Cpu) :
    Leads (c.Counted ∧ c.Loadable w (c.localCell k)) [.word (.loadLocal w) k] c
      (c.loading w (c.localCell k)) := by
  have load := (needs_readAt (w := w) (c := c) (c.localCell k)).bind (needs_pushAt (w := w) _)
  exact Leads.of_needs (fun _ => Instruction.noConfusion) fun _ =>
    ⟨_, ((needs_localAddr_counted c k).bind load).bind_pure⟩

theorem leads_loadAt (hsp : c.sp < 0x1000000) (w : Width) :
    Leads (Poppable 2 c ∧ (c.drop 2).Loadable w (Width.long.value (c.top 2)))
      [.plain (.loadAt w)] c ((c.drop 2).loading w (Width.long.value (c.top 2))) :=
  Leads.of_needs (fun _ => Instruction.noConfusion) fun _ =>
    ⟨_, (needs_popAt (w := .long) hsp).bind ((needs_readAt _).bind (needs_pushAt _).bind_pure)⟩

theorem leads_store (hsp : c.sp < 0x1000000) (w : Width) (a : Nat) :
    Leads (Poppable w.words c ∧ c.Storable w a) [.long (.store w) a] c
      ((c.drop w.words).storing w a (w.value (c.top w.words))) :=
  Leads.of_needs (fun _ => Instruction.noConfusion) fun _ =>
    ⟨_, (needs_popAt hsp).bind (needs_writeAt (c := c.drop w.words) _ _).bind_pure⟩

theorem leads_storeLocal (hsp : c.sp < 0x1000000) (w : Width) (k : Nat) :
    Leads (c.Counted ∧ Poppable w.words c ∧ c.Storable w (c.localCell k))
      [.word (.storeLocal w) k] c
      ((c.drop w.words).storing w (c.localCell k) (w.value (c.top w.words))) :=
  Leads.of_needs (fun _ => Instruction.noConfusion) fun _ =>
    ⟨_, (needs_storeLocal hsp w k).bind_pure⟩

theorem leads_storeAt (hsp : c.sp < 0x1000000) (w : Width) :
    Leads (Poppable w.words c ∧ Poppable 2 (c.drop w.words) ∧
        c.Storable w (Width.long.value ((c.drop w.words).top 2)))
      [.plain (.storeAt w)] c
      (((c.drop w.words).drop 2).storing w (Width.long.value ((c.drop w.words).top 2))
        (w.value (c.top w.words))) :=
  Leads.of_needs (fun _ => Instruction.noConfusion) fun _ =>
    ⟨_, (needs_popAt hsp).bind ((needs_popAt (w := .long) (drop_sp_lt w.words c)).bind
      (needs_writeAt (c := (c.drop w.words).drop 2) _ _).bind_pure)⟩

end Instructions

namespace Cpu

def Beside (n : Nat) (c : Cpu) (a : Nat) : Prop := ∀ i < n, a ≠ c.slot i

instance (n : Nat) (c : Cpu) (a : Nat) : Decidable (c.Beside n a) :=
  inferInstanceAs (Decidable (∀ i < n, a ≠ c.slot i))

structure SameBeside (n : Nat) (c d e : Cpu) : Prop where
  sp_eq : d.sp = e.sp
  fp_eq : d.fp = e.fp
  carry_eq : d.carry = e.carry
  agree : Agree (c.Beside n) d.memory e.memory

structure SameLoaded (w : Width) (c d e : Cpu) : Prop extends SameBeside 2 c d e where
  top_eq : d.top w.words = e.top w.words

structure SameStored (w : Width) (a v : Nat) (c d e : Cpu) : Prop
    extends SameBeside (2 + w.words) c d e where
  stored : (w.cells a).map d.memory.word = w.split v
  stored' : (w.cells a).map e.memory.word = w.split v

end Cpu

theorem Width.words_le_two (w : Width) : w.words ≤ 2 := by cases w <;> decide

theorem Width.long_value_split {a : Nat} (ha : a < 0x1000000) : long.value (long.split a) = a :=
  (join_split a).trans (toLong_of_lt ha)

namespace Memory.Agree
variable {P : Nat → Prop} {m n : Memory}

theorem valueAt_eq {w : Width} {a : Nat} (h : Agree P m n) (ha : ∀ b ∈ w.cells a, P b) :
    n.valueAt w a = m.valueAt w a :=
  congrArg w.value (List.map_congr_left fun b hb => h.word_eq b (ha b hb))

theorem putAt (h : Agree P m n) (w : Width) (a v : Nat) :
    Agree P (m.putAt w a v) (n.putAt w a v) := by
  cases w with
  | word => exact h.put a v
  | long => exact (h.put a (high v)).put (next a) (low v)

end Memory.Agree

namespace Cpu.Pushed
variable {c d d' e : Cpu} {us vs : List Nat} {n : Nat}

theorem agree_beside (h : Pushed vs c d) (hn : vs.length ≤ n) :
    Agree (c.Beside n) c.memory d.memory := h.agree.mono fun _ hb i hi => hb i (hi.trans_le hn)

theorem storable_iff {w : Width} {a : Nat} (h : Pushed vs c d) :
    d.Storable w a ↔ c.Storable w a := by rw [Storable, h.agree.layout_eq, Storable]

theorem loadable_drop {w : Width} {a : Nat} (h : Pushed vs c d) (hn : vs.length = n) :
    (d.drop n).Loadable w a ↔ c.Loadable w a := by
  have hlayout : (d.drop n).memory.layout = c.memory.layout := h.agree.layout_eq
  rw [Loadable, h.pushable_drop hn, hlayout, Loadable]

/-- Words in the place of others that have been dropped are like words pushed without these. -/
theorem sameBeside (h : Pushed us c d) (hn : us.length = n) (h' : Pushed vs (d.drop n) d')
    (direct : Pushed vs c e) (few : vs.length ≤ n) : SameBeside n c d' e := by
  have before : Agree (c.Beside n) c.memory d.memory := h.agree_beside hn.le
  have after : Agree (c.Beside n) d.memory d'.memory := by
    refine h'.agree.mono fun b hb i hi => ?_
    rw [h.slot_drop hn]
    exact hb i (hi.trans_le few)
  constructor
  case sp_eq =>
    simp only [h'.sp_eq, direct.sp_eq, drop, h.sp_eq, back, toLong]
    omega
  case fp_eq => exact h'.fp_eq.trans (h.fp_eq.trans direct.fp_eq.symm)
  case carry_eq => exact h'.carry_eq.trans (h.carry_eq.trans direct.carry_eq.symm)
  case agree => exact (before.trans after).symm.trans (direct.agree_beside few)

end Cpu.Pushed

section Loads
variable {c : Cpu} {w : Width} {a : Nat} {q : Prop} {i j : Instruction} {m : Machine}

/-- The address that has been pushed is popped, and the value is pushed in its place. -/
theorem leads_loadAt_pushed (ha : a < 0x1000000) (room : Pushable 2 c)
    (apart : ∀ b ∈ w.cells a, c.Beside 2 b) :
    let d := pushing (Width.long.split a) c
    Leads (c.Loadable w a) [.plain (.loadAt w)] d
      (pushing (w.split (c.memory.valueAt w a)) (d.drop 2)) := by
  intro d
  have pushed : Pushed _ c d := pushed_split (w := .long) room a
  have top : d.top 2 = Width.long.split a := pushed.top_eq (Width.wordList_split .long a)
  have address : Width.long.value (d.top 2) = a := top ▸ Width.long_value_split ha
  have value : d.memory.valueAt w a = c.memory.valueAt w a :=
    (pushed.agree_beside le_rfl).valueAt_eq apart
  have h := leads_loadAt (pushed.sp_eq ▸ toLong_lt _) w
  rw [address, loading, show (d.drop 2).memory = d.memory from rfl, value] at h
  exact h.iff ((and_iff_right (pushed.poppable rfl)).trans (pushed.loadable_drop rfl))

theorem sameLoaded_of_loadable (room : Pushable 2 c) (loadable : c.Loadable w a) :
    SameLoaded w c
      (pushing (w.split (c.memory.valueAt w a)) ((pushing (Width.long.split a) c).drop 2))
      (c.loading w a) := by
  have address := pushed_split (w := .long) room a
  have words := Width.wordList_split w (c.memory.valueAt w a)
  have indirect := pushed_split ((address.pushable_drop rfl _).2 loadable.2)
    (c.memory.valueAt w a)
  have direct := pushed_split loadable.2 (c.memory.valueAt w a)
  exact ⟨address.sameBeside rfl indirect direct (words.length_eq.trans_le w.words_le_two),
    (indirect.top_eq words).trans (direct.top_eq words).symm⟩

/-- However an instruction gets to an address, loading from there is the same. -/
theorem loads_alike (ha : a < 0x1000000) (room : Pushable 2 m.toCpu)
    (address : Leads (q ∧ Pushable 2 m.toCpu) [i] m.toCpu
      (pushing (Width.long.split a) m.toCpu))
    (direct : Leads (q ∧ m.toCpu.Loadable w a) [j] m.toCpu (m.toCpu.loading w a))
    (apart : q → ∀ b ∈ w.cells a, m.toCpu.Beside 2 b) :
    m.Alike (SameLoaded w m.toCpu) [i, .plain (.loadAt w)] [j] := by
  have indirect := address.append fun h => leads_loadAt_pushed (w := w) ha room (apart h.1)
  refine indirect.alike direct ?_ fun h => sameLoaded_of_loadable room h.2
  rw [and_iff_left room]

end Loads

section Stores
variable {c : Cpu} {w : Width} {a v : Nat} {q : Prop} {i j : Instruction} {m : Machine}

theorem Cpu.stored_storing (h : c.Storable w a) (v : Nat) :
    (w.cells a).map (c.storing w a v).memory.word = w.split v :=
  map_word_putAt _ (fun b hb => (h b hb).trans_le c.memory.layout.romBase_le_total) v

/-- The address and the value, one on top of the other. -/
theorem pushed_addressed (room : Pushable (2 + w.words) c) (a v : Nat) :
    Pushed (Width.long.split a ++ w.split v) c
      (pushing (w.split v) (pushing (Width.long.split a) c)) := by
  obtain ⟨room₁, room₂⟩ := (pushable_add (Width.long.split a) rfl).1 room
  have both := (Width.wordList_split .long a).append (Width.wordList_split w v)
  have few : Width.long.words + w.words ≤ 0x1000000 :=
    (Nat.add_le_add_left w.words_le_two 2).trans (by decide)
  exact (pushed_split (w := .long) room₁ a).append (pushed_split room₂ v)
    (both.length_eq.trans_le few)

/-- The value is popped first, and the address lies below it. -/
theorem leads_storeAt_pushed (ha : a < 0x1000000) (room : Pushable (2 + w.words) c) :
    let d := pushing (w.split v) (pushing (Width.long.split a) c)
    Leads (c.Storable w a) [.plain (.storeAt w)] d
      (((d.drop w.words).drop 2).storing w a (w.value (w.split v))) := by
  intro d
  have words := Width.wordList_split w v
  have both : WordList (2 + w.words) _ := (Width.wordList_split .long a).append words
  have pushed : Pushed _ c d := pushed_addressed room a v
  have top : (d.drop w.words).top 2 ++ d.top w.words = Width.long.split a ++ w.split v :=
    (top_add 2 w.words).symm.trans (pushed.top_eq both)
  obtain ⟨below, above⟩ := List.append_inj top (length_top 2)
  have address : Width.long.value ((d.drop w.words).top 2) = a :=
    below ▸ Width.long_value_split ha
  have hsp : d.sp < 0x1000000 := pushed.sp_eq ▸ toLong_lt _
  have h := leads_storeAt hsp w
  rw [address, above] at h
  have poppable : Poppable (w.words + 2) d :=
    pushed.poppable (both.length_eq.trans (Nat.add_comm _ _))
  obtain ⟨pop₁, pop₂⟩ := poppable_add.1 poppable
  exact h.iff ((and_iff_right pop₁).trans ((and_iff_right pop₂).trans pushed.storable_iff))

/-- An address that comes with the instruction leaves only the value to pop. -/
theorem sameStored_of_storable (room : Pushable (2 + w.words) c) (storable : c.Storable w a) :
    let d := pushing (w.split v) (pushing (Width.long.split a) c)
    let e := pushing (w.split v) c
    SameStored w a v c (((d.drop w.words).drop 2).storing w a (w.value (w.split v)))
      ((e.drop w.words).storing w a (w.value (w.split v))) := by
  intro d e
  have words := Width.wordList_split w v
  have both := (Width.wordList_split .long a).append words
  have indirect : Pushed _ c d := pushed_addressed room a v
  have direct : Pushed _ c e := pushed_split (fun i hi => room i (by omega)) v
  have value : w.split (w.value (w.split v)) = w.split v := Width.split_value words
  refine ⟨⟨?sp_eq, ?fp_eq, ?carry_eq, ?agree⟩, ?stored, ?stored'⟩
  case sp_eq =>
    have hd := both.length_eq
    have he := words.length_eq
    show back (back d.sp w.words) 2 = back e.sp w.words
    simp only [indirect.sp_eq, direct.sp_eq, hd, he, Width.words, back, toLong]
    omega
  case fp_eq => exact indirect.fp_eq.trans direct.fp_eq.symm
  case carry_eq => exact indirect.carry_eq.trans direct.carry_eq.symm
  case agree =>
    -- the two runs differ in scratch cells only, before the store and after it
    have away : Agree (c.Beside (2 + w.words)) d.memory e.memory :=
      (indirect.agree_beside both.length_eq.le).symm.trans
        (direct.agree_beside (words.length_eq.trans_le (Nat.le_add_left _ _)))
    exact away.putAt w a _
  case stored =>
    have storable' : ((d.drop w.words).drop 2).Storable w a := indirect.storable_iff.2 storable
    exact (stored_storing storable' _).trans value
  case stored' =>
    have storable' : (e.drop w.words).Storable w a := direct.storable_iff.2 storable
    exact (stored_storing storable' _).trans value

theorem leads_store_pushed (room : Pushable w.words c) (a v : Nat) :
    let e := pushing (w.split v) c
    Leads (c.Storable w a) [.long (.store w) a] e
      ((e.drop w.words).storing w a (w.value (w.split v))) := by
  intro e
  have words := Width.wordList_split w v
  have pushed : Pushed _ c e := pushed_split room v
  have h := leads_store (pushed.sp_eq ▸ toLong_lt _) w a
  rw [pushed.top_eq words] at h
  exact h.iff ((and_iff_right (pushed.poppable words.length_eq)).trans pushed.storable_iff)

/-- The local is still where it was, as the count of the locals is not one of the words pushed. -/
theorem leads_storeLocal_pushed (room : Pushable w.words c) (apart : c.Beside w.words (c.fp + 4))
    (k v : Nat) :
    let e := pushing (w.split v) c
    Leads (c.Counted ∧ c.Storable w (c.localCell k)) [.word (.storeLocal w) k] e
      ((e.drop w.words).storing w (c.localCell k) (w.value (w.split v))) := by
  intro e
  have words := Width.wordList_split w v
  have pushed : Pushed _ c e := pushed_split room v
  have counted : e.Counted ↔ c.Counted := by
    rw [Counted, pushed.fp_eq, pushed.agree.layout_eq, Counted]
  have cell (h : c.Counted) : e.localCell k = c.localCell k :=
    localCell_congr pushed.fp_eq
      ((pushed.agree_beside words.length_eq.le).word_eq _ (h.countCell_eq.symm ▸ apart)) k
  have h := leads_storeLocal (pushed.sp_eq ▸ toLong_lt _) w k
  rw [pushed.top_eq words] at h
  have allowed : (e.Counted ∧ Poppable w.words e ∧ e.Storable w (e.localCell k)) ↔
      c.Counted ∧ c.Storable w (c.localCell k) := by
    rw [counted, and_iff_right (pushed.poppable words.length_eq), pushed.storable_iff]
    exact and_congr_right fun h => by rw [cell h]
  exact (h.iff allowed).congr fun hc => by rw [cell hc.1]

/-- However an instruction gets to an address, storing there is the same. -/
theorem stores_alike (ha : a < 0x1000000) (room : Pushable (2 + w.words) m.toCpu)
    (address : Leads (q ∧ Pushable 2 m.toCpu) [i] m.toCpu
      (pushing (Width.long.split a) m.toCpu))
    (store : Leads (q ∧ m.toCpu.Storable w a) [j] (pushing (w.split v) m.toCpu)
      (((pushing (w.split v) m.toCpu).drop w.words).storing w a (w.value (w.split v)))) :
    m.Alike (SameStored w a v m.toCpu) [i, .pushValue w v, .plain (.storeAt w)]
      [.pushValue w v, j] := by
  have room' : Pushable w.words m.toCpu := fun i hi => room i (by omega)
  obtain ⟨below, above⟩ := (pushable_add (Width.long.split a) (j := 2) rfl).1 room
  have indirect := address.append fun _ => (leads_push w v _).append
    fun _ => leads_storeAt_pushed ha room
  have direct := (leads_push w v m.toCpu).append fun _ => store
  refine indirect.alike direct ?_ fun h => sameStored_of_storable room h.2.2
  rw [and_iff_left below, and_iff_right above, and_iff_right room']

end Stores

/-- A value is loaded from an address, and stored at one, alike in all modes. -/
theorem addressing_modes_agree (m : Machine) (w : Width) {a : Nat} (ha : a < 0x1000000)
    (k v : Nat) :
    let c := m.toCpu
    let b := c.localCell k
    (Pushable 2 c →
      ((∀ x ∈ w.cells a, c.Beside 2 x) →
        m.Alike (SameLoaded w c) [.pushValue .long a, .plain (.loadAt w)] [.long (.load w) a]) ∧
      ((c.Counted → ∀ x ∈ w.cells b, c.Beside 2 x) →
        m.Alike (SameLoaded w c) [.word .addrLocal k, .plain (.loadAt w)]
          [.word (.loadLocal w) k])) ∧
    (Pushable (2 + w.words) c →
      m.Alike (SameStored w a v c) [.pushValue .long a, .pushValue w v, .plain (.storeAt w)]
        [.pushValue w v, .long (.store w) a] ∧
      (c.Beside (2 + w.words) (c.fp + 4) →
        m.Alike (SameStored w b v c) [.word .addrLocal k, .pushValue w v, .plain (.storeAt w)]
          [.pushValue w v, .word (.storeLocal w) k])) := by
  intro c b
  have hb : b < 0x1000000 := toLong_lt _
  have pushes : Leads (True ∧ Pushable 2 c) [.pushValue .long a] c
      (pushing (Width.long.split a) c) := (leads_push .long a c).iff (and_iff_right trivial).symm
  have load : Leads (True ∧ c.Loadable w a) [.long (.load w) a] c (c.loading w a) :=
    (leads_load w a c).iff (and_iff_right trivial).symm
  refine ⟨fun room => ⟨loads_alike ha room pushes load ∘ fun apart _ => apart,
    loads_alike hb room (leads_addrLocal k c) (leads_loadLocal w k c)⟩, fun room => ?_⟩
  have room' : Pushable w.words c := fun i hi => room i (by omega)
  refine ⟨stores_alike ha room pushes ((leads_store_pushed room' a v).iff
    (and_iff_right trivial).symm), fun apart => ?_⟩
  have apart' : c.Beside w.words (c.fp + 4) := fun i hi => apart i (by omega)
  exact stores_alike hb room (leads_addrLocal k c) (leads_storeLocal_pushed room' apart' k v)

/-- A routine with one parameter and two more locals stores a long in these two by their address,
and loads its parameter. -/
theorem locals_by_address :
    let m := ((Operation.applyAll [.loadRom 0 [1, 3], .reset 34]
      (Machine.new ⟨32, 0, 0, 16, by decide⟩)).after (.word .push 9)).after (.long .call 32)
    (∃ m', m.ExecutesAll
        [.word .addrLocal 1, .long .push 0x123456, .plain (.storeAt .long)] m' ∧
      m'.sp = m.sp ∧ [6, 7].map m'.memory.word = [0x123, 0x456]) ∧
      ∃ m', m.ExecutesAll [.long .push 5, .plain (.loadAt .word)] m' ∧
        m'.toCpu.top 1 = [9] ∧ m'.sp = 13 := by
  intro m
  constructor
  · obtain ⟨-, stores⟩ := addressing_modes_agree m .long (a := 5) (by decide) 1 0x123456
    obtain ⟨-, storeLocal⟩ := stores (by decide +kernel)
    have alike := storeLocal (by decide +kernel)
    have direct : m.ExecutesAll [.long .push 0x123456, .word (.storeLocal .long) 1]
        ((m.after (.long .push 0x123456)).after (.word (.storeLocal .long) 1)) :=
      ⟨_, Machine.executes_after (by decide +kernel), _,
        Machine.executes_after (by decide +kernel), rfl⟩
    obtain ⟨m', run⟩ := alike.succeeds_iff.2 ⟨_, direct⟩
    have same := alike.related m' _ run direct
    have cells : Width.long.cells (m.toCpu.localCell 1) = [6, 7] := by decide +kernel
    exact ⟨m', run, same.sp_eq.trans (by decide +kernel), cells ▸ same.stored⟩
  · obtain ⟨loads, -⟩ := addressing_modes_agree m .word (a := 5) (by decide) 0 0
    obtain ⟨load, -⟩ := loads (by decide +kernel)
    have alike := load (by decide +kernel)
    have direct : m.ExecutesAll [.long (.load .word) 5] (m.after (.long (.load .word) 5)) :=
      ⟨_, Machine.executes_after (by decide +kernel), rfl⟩
    obtain ⟨m', run⟩ := alike.succeeds_iff.2 ⟨_, direct⟩
    have same := alike.related m' _ run direct
    exact ⟨m', run, same.top_eq.trans (by decide +kernel), same.sp_eq.trans (by decide +kernel)⟩

end TwelveBit
