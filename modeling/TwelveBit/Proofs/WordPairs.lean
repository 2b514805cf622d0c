import TwelveBit.Proofs.AddressingModes
import TwelveBit.Proofs.JumpConditions
/-!
Longs as pairs of words. An instruction on a long does what two instructions on its words do one
after the other, unless the first of these overwrites what the second one goes by. The high word
has the lower address everywhere: it is the first one to be pushed or loaded, and the last one to be
popped or stored.
-/
namespace TwelveBit
open Cpu Memory

namespace Memory
variable {m : Memory} {a b v w : Nat}

theorem put_of_word_eq (h : m.word a = toWord v) : m.put a v = m := by
  refine ext_word rfl fun b _ => ?_
  rw [word_put]
  split
  case isTrue hb => rw [hb.1, h]
  case isFalse => rfl

theorem put_comm (h : a ≠ b) : (m.put a v).put b w = (m.put b w).put a v := by
  refine ext_word rfl fun x _ => ?_
  simp only [word_put, layout_put]
  by_cases hb : x = b
  · have ha : x ≠ a := fun ha => h (ha.symm.trans hb)
    simp only [ha, false_and, if_false]
  · simp only [hb, false_and, if_false]

end Memory

theorem Width.split_value_of_length {w : Width} {vs : List Nat} (h : vs.length = w.words) :
    w.split (w.value vs) = vs.map toWord := by
  match w, vs, h with
  | word, [v], _ => rfl
  | long, [h, l], _ => simp only [split, value, high_join, low_join, List.map_cons, List.map_nil]

namespace Cpu
variable {c : Cpu} {w : Width} {vs : List Nat} {k a : Nat}

theorem pushing_split_value (h : vs.length = w.words) (c : Cpu) :
    pushing (w.split (w.value vs)) c = pushing vs c := by
  rw [Width.split_value_of_length h, pushing_map_toWord]

theorem pushes_value (h : vs.length = w.words) (c : Cpu) :
    Pushes vs (pushAt w (w.value vs)) c () := by
  have push := needs_pushAt (w := w) (c := c) (w.value vs)
  rwa [pushing_split_value h, ← h] at push

theorem length_topWords (k : Nat) (c : Cpu) : (c.topWords k).length = k := by
  induction k generalizing c with
  | zero => rfl
  | succ k ih => rw [topWords, List.length_append, ih, List.length_singleton]

theorem popped_memory (k : Nat) (c : Cpu) : (c.popped k).memory = c.memory := by
  rw [popped_eq]

theorem canPop_iff (hsp : c.sp < 0x1000000) : CanPop k c ↔ Poppable k c := by
  induction k generalizing c with
  | zero => exact iff_of_true trivial poppable_zero
  | succ k ih =>
    have first : c.sp < c.memory.layout.total ↔ Poppable 1 c :=
      (needs_pop_mapped c).ok_iff.symm.trans (needs_pop hsp).ok_iff
    rw [CanPop, first, ih (drop_sp_lt 1 c), Nat.add_comm, poppable_add]

theorem topWords_eq_top (hsp : c.sp < 0x1000000) (k : Nat) : c.topWords k = c.top k := by
  induction k generalizing c with
  | zero => rfl
  | succ k ih => rw [topWords, ih (drop_sp_lt 1 c), top_add k 1, top_one hsp]

/-- Words that are popped and pushed again come to lie where they were. -/
theorem pushing_topWords (hpop : CanPop k c) (hlt : ∀ v ∈ c.topWords k, v < 0x1000)
    (reached : ∀ j < k, back c.sp j ≤ c.highWater) : pushing (c.topWords k) (c.popped k) = c := by
  induction k generalizing c with
  | zero => rfl
  | succ k ih =>
    obtain ⟨mapped, hpop⟩ := hpop
    have hsp : c.sp < 0x1000000 := mapped.trans_le c.memory.layout.total_le_space
    rw [topWords, List.forall_mem_append, List.forall_mem_singleton] at hlt
    have below : ∀ j < k, back (c.drop 1).sp j ≤ (c.drop 1).highWater := by
      intro j hj
      have := reached (j + 1) (by omega)
      simp only [drop, back, toLong] at this ⊢
      omega
    have place : next (back c.sp 1) = c.sp := by
      simp only [next, back, toLong]
      omega
    have top_le : c.sp ≤ c.highWater := by
      have := reached 0 (Nat.succ_pos k)
      simp only [back, toLong] at this
      omega
    have same : c.memory.put c.sp (c.memory.word c.sp) = c.memory :=
      put_of_word_eq (toWord_of_lt hlt.2).symm
    -- the lower words are back already, and the topmost one is pushed last
    rw [topWords, popped, pushing_append, ih hpop hlt.1 below]
    simp only [pushing, List.foldl, drop, place, same, Nat.max_eq_left top_le]

end Cpu

section Instructions
variable {c : Cpu} {w : Width} {a k : Nat}

def Cpu.storingTop (w : Width) (a : Nat) (c : Cpu) : Cpu :=
  (c.popped w.words).storing w a (w.value (c.topWords w.words))

theorem leads_pop (w : Width) (c : Cpu) :
    Leads (CanPop w.words c) [.plain (.pop w)] c (c.popped w.words) :=
  Leads.of_needs (fun _ => Instruction.noConfusion) fun _ => ⟨_, (needs_popAt_canPop w c).bind_pure⟩

theorem leads_dup (w : Width) (c : Cpu) :
    Leads (CanPop w.words c ∧ Pushable (w.words + w.words) (c.popped w.words)) [.plain (.dup w)] c
      (pushing (c.topWords w.words ++ c.topWords w.words) (c.popped w.words)) := by
  have length := length_topWords w.words c
  refine Leads.of_needs (fun _ => Instruction.noConfusion) fun next => ⟨next, ?_⟩
  have push := (pushes_value length (c.popped w.words)).append
    ((pushes_value length _).return next)
  rw [Pushes, List.length_append, length] at push
  exact (needs_popAt_canPop w c).bind push

theorem leads_dupSecond (c : Cpu) :
    Leads (CanPop 2 c ∧ Pushable 3 (c.popped 2)) [.plain .dupSecond] c
      (pushing (c.topWords 2 ++ (c.topWords 2).take 1) (c.popped 2)) := by
  refine Leads.of_needs (fun _ => Instruction.noConfusion) fun next => ⟨next, ?_⟩
  have push (v : Nat) (d : Cpu) : Pushes [v] (Cpu.push v) d () := needs_push v
  let a := c.memory.word (c.drop 1).sp
  let b := c.memory.word c.sp
  have pushes := (push a (c.popped 2)).append ((push b _).append ((push a _).return next))
  have h : Needs _ ((Instruction.plain .dupSecond).run next) c _ _ :=
    (needs_pop_mapped c).bind ((needs_pop_mapped (c.drop 1)).bind pushes)
  exact h.iff ⟨fun ⟨upper, lower, room⟩ => ⟨⟨upper, lower, trivial⟩, room⟩,
    fun ⟨⟨upper, lower, _⟩, room⟩ => ⟨upper, lower, room⟩⟩

theorem Cpu.needs_storeTop (w : Width) (a : Nat) (c : Cpu) :
    Needs (c.Storable w a) (writeAt w a (w.value (c.topWords w.words))) (c.popped w.words) ()
      (c.storingTop w a) :=
  (needs_writeAt (c := c.popped w.words) a _).iff (by rw [popped_memory, Storable])

theorem leads_storeTop (w : Width) (a : Nat) (c : Cpu) :
    Leads (CanPop w.words c ∧ c.Storable w a) [.long (.store w) a] c (c.storingTop w a) :=
  Leads.of_needs (fun _ => Instruction.noConfusion) fun _ =>
    ⟨_, (needs_popAt_canPop w c).bind (needs_storeTop w a c).bind_pure⟩

theorem leads_storeLocalTop (w : Width) (k : Nat) (c : Cpu) :
    Leads (c.Counted ∧ CanPop w.words c ∧ c.Storable w (c.localCell k))
      [.word (.storeLocal w) k] c (c.storingTop w (c.localCell k)) :=
  Leads.of_needs (fun _ => Instruction.noConfusion) fun _ =>
    ⟨_, ((needs_localAddr_counted c k).bind
      ((needs_popAt_canPop w c).bind (needs_storeTop w (c.localCell k) c))).bind_pure⟩

end Instructions

section Stack
variable {c : Cpu} (m : Machine)

theorem push_pair (v : Nat) :
    m.Alike Eq [.long .push v] [.word .push (high v), .word .push (low v)] := by
  have twice := (leads_push .word (high v) m.toCpu).append fun _ => leads_push .word (low v) _
  refine (leads_push .long v m.toCpu).alike twice (pushable_add (j := 1) (k := 1) _ rfl) fun _ => ?_
  have masked (u : Nat) (c : Cpu) : pushing (Width.word.split u) c = pushing [u] c :=
    pushing_map_toWord [u] c
  rw [masked, masked]
  rfl

theorem pop_pair :
    m.Alike Eq [.plain (.pop .long)] [.plain (.pop .word), .plain (.pop .word)] := by
  have twice := (leads_pop .word m.toCpu).append fun _ => leads_pop .word _
  refine (leads_pop .long m.toCpu).alike twice ?_ fun _ => rfl
  exact (and_congr_left' (and_iff_left trivial)).symm

/-- Two words that have just been pushed are popped, and pushed again where they were. -/
theorem leads_dupSecond_pushed (hsp : c.sp < 0x1000000) (room : Pushable 2 c) (a b : Nat) :
    Leads (Pushable 3 c) [.plain .dupSecond] (pushing [a, b] c) (pushing [a, b, a] c) := by
  let d := pushing [a, b] c
  have masked : pushing [toWord a, toWord b] c = d := pushing_map_toWord [a, b] c
  have words : WordList 2 [toWord a, toWord b] :=
    (WordList.nil.cons (toWord_lt b)).cons (toWord_lt a)
  have pushed : Pushed [toWord a, toWord b] c d :=
    masked ▸ pushed_pushing hsp (words.length_eq.trans_le (by decide)) room
  have hsp' : d.sp < 0x1000000 := toLong_lt _
  have poppable : CanPop 2 d := (canPop_iff hsp').2 (pushed.poppable rfl)
  have top : d.topWords 2 = [toWord a, toWord b] :=
    (topWords_eq_top hsp' 2).trans (pushed.top_eq words)
  have reached : ∀ j < 2, back d.sp j ≤ d.highWater := by
    intro j hj
    simp only [d, pushing, List.foldl, back, next, toLong]
    omega
  -- to pop the two words and push them again changes nothing, not even the mark of the stack
  have again : pushing (d.topWords 2) (d.popped 2) = d :=
    pushing_topWords poppable (top ▸ words.lt) reached
  have after : pushing (d.topWords 2 ++ (d.topWords 2).take 1) (d.popped 2) =
      pushing [a, b, a] c := by
    rw [pushing_append, again, top]
    exact pushing_map_toWord [a] d
  have h := leads_dupSecond d
  rw [after, popped_succ 1 d] at h
  exact h.iff ((and_iff_right poppable).trans (pushed.pushable_drop words.length_eq 3))

/-- The lower word stays where it is, and the second instruction finds the two above it. -/
theorem dup_pair :
    m.Alike Eq [.plain (.dup .long)] [.plain .dupSecond, .plain .dupSecond] := by
  let c := m.toCpu
  let e := c.popped 2
  let a := c.memory.word (c.drop 1).sp
  let b := c.memory.word c.sp
  have direct : Leads (CanPop 2 c ∧ Pushable 4 e) [.plain (.dup .long)] c
      (pushing ([a] ++ [b, a, b]) e) := leads_dup .long c
  have once : Leads (CanPop 2 c ∧ Pushable 3 e) [.plain .dupSecond] c
      (pushing ([a] ++ [b, a]) e) := leads_dupSecond c
  rw [pushing_append] at direct once
  have three : Pushable 3 e ↔ Pushable 1 e ∧ Pushable 2 (pushing [a] e) :=
    pushable_add [a] (j := 1) (k := 2) rfl
  have four : Pushable 4 e ↔ Pushable 1 e ∧ Pushable 3 (pushing [a] e) :=
    pushable_add [a] (j := 1) (k := 3) rfl
  have twice := once.append fun h =>
    leads_dupSecond_pushed (c := pushing [a] e) (toLong_lt _) (three.1 h.2).2 b a
  refine direct.alike twice ?_ fun _ => rfl
  rw [and_assoc]
  refine and_congr_right' ⟨fun h => ⟨fun i hi => h i (by omega), (four.1 h).2⟩, fun h => ?_⟩
  exact four.2 ⟨(three.1 h.1).1, h.2⟩

end Stack

section Loads
variable {c : Cpu} {a k : Nat} {q : Prop} {i j j' : Instruction} {m : Machine}

theorem Cpu.loading_eq (w : Width) (a : Nat) (c : Cpu) :
    c.loading w a = pushing ((w.cells a).map c.memory.word) c :=
  pushing_split_value (by rw [List.length_map, Width.length_cells]) c

theorem Cpu.loadable_long :
    c.Loadable .long a ↔ c.Loadable .word a ∧ (c.loading .word a).Loadable .word (next a) := by
  have layout : (c.loading .word a).memory.layout = c.memory.layout := pushing_layout
  have room : Pushable 2 c ↔ Pushable 1 c ∧ Pushable 1 (c.loading .word a) :=
    pushable_add (j := 1) (k := 1) _ rfl
  simp only [Loadable, Width.cells, Width.words, layout, room, List.forall_mem_cons,
    List.not_mem_nil, false_imp_iff, implies_true, and_true]
  tauto

/-- The push of the high word must not overwrite the low one. -/
theorem Cpu.loading_long (apart : next a ≠ next c.sp) :
    c.loading .long a = (c.loading .word a).loading .word (next a) := by
  let d := pushing [c.memory.word a] c
  have kept : d.memory.word (next a) = c.memory.word (next a) :=
    (word_put _ _ _ _).trans (if_neg fun h => apart h.1)
  have low : d.loading .word (next a) = pushing [c.memory.word (next a)] d :=
    kept ▸ loading_eq .word (next a) d
  rw [loading_eq .word a c]
  exact (loading_eq .long a c).trans low.symm

/-- However an instruction gets to an address, a long is loaded from there word by word. -/
theorem loads_pair (apart : a ≠ toLong m.sp)
    (long : Leads (q ∧ m.toCpu.Loadable .long a) [i] m.toCpu (m.toCpu.loading .long a))
    (first : Leads (q ∧ m.toCpu.Loadable .word a) [j] m.toCpu (m.toCpu.loading .word a))
    (second : q → let d := m.toCpu.loading .word a
      Leads (d.Loadable .word (next a)) [j'] d (d.loading .word (next a))) :
    m.Alike Eq [i] [j, j'] := by
  have pair := first.append fun h => second h.1
  refine long.alike pair ((and_congr_right' loadable_long).trans and_assoc.symm) fun h => ?_
  have mapped : a < 0x1000000 :=
    (h.2.1 a List.mem_cons_self).trans_le m.memory.layout.total_le_space
  refine loading_long ?_
  simp only [next, toLong] at apart ⊢
  omega

theorem Cpu.localCell_succ (k : Nat) (c : Cpu) : c.localCell (k + 1) = next (c.localCell k) := by
  simp only [localCell, next, toLong]
  omega

/-- The low word is found as long as the count of the locals has not been overwritten. -/
theorem leads_loadLocal_low (beside : c.Beside 1 (c.fp + 4)) (counted : c.Counted) (k : Nat) :
    let d := c.loading .word (c.localCell k)
    Leads (d.Loadable .word (next (c.localCell k))) [.word (.loadLocal .word) (k + 1)] d
      (d.loading .word (next (c.localCell k))) := by
  intro d
  have pushed : d.memory = c.memory.put (c.slot 0) (toWord (c.memory.valueAt .word _)) := rfl
  have count : d.memory.word c.countCell = c.memory.word c.countCell := by
    rw [pushed, word_put, counted.countCell_eq, if_neg fun h => beside 0 Nat.one_pos h.1]
  have cell : d.localCell (k + 1) = next (c.localCell k) :=
    (localCell_congr (c := c) (d := d) rfl count (k + 1)).trans (localCell_succ k c)
  have h := leads_loadLocal .word (k + 1) d
  rw [cell] at h
  exact h.iff (and_iff_right counted)

end Loads

section Stores
variable {c : Cpu} {a k : Nat} {q : Prop} {i j j' : Instruction} {m : Machine}

theorem Cpu.storable_long :
    CanPop 2 c ∧ c.Storable .long a ↔ (CanPop 1 c ∧ c.Storable .word (next a)) ∧
      CanPop 1 (c.storingTop .word (next a)) ∧ (c.storingTop .word (next a)).Storable .word a := by
  have layout : (c.storingTop .word (next a)).memory.layout = c.memory.layout := rfl
  have lower : CanPop 1 (c.storingTop .word (next a)) ↔ CanPop 1 (c.drop 1) := Iff.rfl
  have two : CanPop 2 c ↔ CanPop 1 c ∧ CanPop 1 (c.drop 1) :=
    and_congr_left' (and_iff_left trivial).symm
  simp only [Storable, Width.cells, layout, lower, two, List.forall_mem_cons, List.not_mem_nil,
    false_imp_iff, implies_true, and_true]
  tauto

/-- The store of the low word must not overwrite the high one, which is still on the stack. -/
theorem Cpu.storingTop_long (apart : next a ≠ back c.sp 1) :
    c.storingTop .long a = (c.storingTop .word (next a)).storingTop .word a := by
  let h := c.memory.word (back c.sp 1)
  let l := c.memory.word c.sp
  let n := c.memory.put (next a) l
  have direct : c.storingTop .long a =
      { c.popped 2 with
        memory := (c.memory.put a (high (join h l))).put (next a) (low (join h l)) } := rfl
  have pair : (c.storingTop .word (next a)).storingTop .word a =
      { c.popped 2 with memory := n.put a (n.word (back c.sp 1)) } := rfl
  have kept : n.word (back c.sp 1) = h := (word_put _ _ _ _).trans (if_neg fun h => apart h.1.symm)
  rw [direct, pair, kept, high_join, low_join, put_toWord, put_toWord, put_comm (ne_next a)]

/-- However an instruction gets to an address, a long is stored there word by word. -/
theorem stores_pair (apart : next a ≠ back m.sp 1)
    (long : Leads (q ∧ CanPop 2 m.toCpu ∧ m.toCpu.Storable .long a) [i] m.toCpu
      (m.toCpu.storingTop .long a))
    (first : Leads (q ∧ CanPop 1 m.toCpu ∧ m.toCpu.Storable .word (next a)) [j] m.toCpu
      (m.toCpu.storingTop .word (next a)))
    (second : q → let d := m.toCpu.storingTop .word (next a)
      Leads (CanPop 1 d ∧ d.Storable .word a) [j'] d (d.storingTop .word a)) :
    m.Alike Eq [i] [j, j'] := by
  have pair := first.append fun h => second h.1
  exact long.alike pair ((and_congr_right' storable_long).trans and_assoc.symm)
    fun _ => storingTop_long apart

/-- The other local is found as long as the low word is not stored in the count of the locals. -/
theorem leads_storeLocal_high (beside : next (c.localCell k) ≠ c.fp + 4) (counted : c.Counted) :
    let d := c.storingTop .word (next (c.localCell k))
    Leads (CanPop 1 d ∧ d.Storable .word (c.localCell k)) [.word (.storeLocal .word) k] d
      (d.storingTop .word (c.localCell k)) := by
  intro d
  have stored : d.memory = c.memory.put (next (c.localCell k)) (c.memory.word c.sp) := rfl
  have count : d.memory.word c.countCell = c.memory.word c.countCell := by
    rw [stored, word_put, counted.countCell_eq, if_neg fun h => beside h.1.symm]
  have h := leads_storeLocalTop .word k d
  rw [localCell_congr (c := c) (d := d) rfl count k] at h
  exact h.iff (and_iff_right counted)

end Stores

/-- An instruction on a long and the two on its words go well together, and come to the same
processor. A load needs the address of the low word not to be the next one above the stack, and a
store needs it not to be that of the high word on the stack; besides, the first of two instructions
on locals must leave the count of the locals alone. -/
theorem long_instructions_are_word_pairs (m : Machine) (v a k : Nat) :
    let c := m.toCpu
    let b := c.localCell k
    m.Alike Eq [.long .push v] [.word .push (high v), .word .push (low v)] ∧
    m.Alike Eq [.plain (.pop .long)] [.plain (.pop .word), .plain (.pop .word)] ∧
    m.Alike Eq [.plain (.dup .long)] [.plain .dupSecond, .plain .dupSecond] ∧
    (a ≠ toLong c.sp →
      m.Alike Eq [.long (.load .long) a] [.long (.load .word) a, .long (.load .word) (next a)]) ∧
    (next a ≠ back c.sp 1 →
      m.Alike Eq [.long (.store .long) a]
        [.long (.store .word) (next a), .long (.store .word) a]) ∧
    (b ≠ toLong c.sp → c.Beside 1 (c.fp + 4) →
      m.Alike Eq [.word (.loadLocal .long) k]
        [.word (.loadLocal .word) k, .word (.loadLocal .word) (k + 1)]) ∧
    (next b ≠ back c.sp 1 → next b ≠ c.fp + 4 →
      m.Alike Eq [.word (.storeLocal .long) k]
        [.word (.storeLocal .word) (k + 1), .word (.storeLocal .word) k]) := by
  intro c b
  refine ⟨push_pair m v, pop_pair m, dup_pair m, fun apart => ?load, fun apart => ?store,
    fun apart beside => ?loadLocal, fun apart beside => ?storeLocal⟩
  case load =>
    exact loads_pair apart (leads_load .long a c).always (leads_load .word a c).always
      fun _ => leads_load .word (next a) _
  case store =>
    exact stores_pair apart (leads_storeTop .long a c).always
      (leads_storeTop .word (next a) c).always fun _ => leads_storeTop .word a _
  case loadLocal =>
    exact loads_pair apart (leads_loadLocal .long k c) (leads_loadLocal .word k c)
      fun counted => leads_loadLocal_low beside counted k
  case storeLocal =>
    exact stores_pair apart (leads_storeLocalTop .long k c)
      (localCell_succ k c ▸ leads_storeLocalTop .word (k + 1) c)
      fun counted => leads_storeLocal_high beside counted

/-- What comes to the same as an instruction that goes well can be known from this one. -/
theorem Machine.Alike.follows {m : Machine} {i : Instruction} {js : List Instruction}
    (h : m.Alike Eq [i] js) (hi : m.accepts i) :
    ∃ m', m.ExecutesAll js m' ∧ m'.toCpu = (m.after i).toCpu := by
  have run : m.ExecutesAll [i] (m.after i) := ⟨_, executes_after hi, rfl⟩
  obtain ⟨m', runs⟩ := h.succeeds_iff.1 ⟨_, run⟩
  exact ⟨m', runs, (h.related _ m' run runs).symm⟩

/-- A routine with one parameter and two more locals keeps a long in these two, or anywhere else,
and loads it again word by word. -/
theorem long_is_kept_word_by_word :
    let m := ((Operation.applyAll [.loadRom 0 [1, 3], .reset 34]
      (Machine.new ⟨32, 0, 0, 16, by decide⟩)).after (.word .push 9)).after (.long .call 32)
    let n := m.after (.long .push 0x123456)
    (∃ k, n.ExecutesAll [.word (.storeLocal .word) 2, .word (.storeLocal .word) 1] k ∧
      k.sp = m.sp ∧ [6, 7].map k.memory.word = [0x123, 0x456]) ∧
    (∃ k, n.ExecutesAll [.word (.loadLocal .word) 0, .word (.loadLocal .word) 1] k ∧
      k.toCpu.top 4 = [0x123, 0x456, 9, 0]) ∧
    (∃ k, n.ExecutesAll [.long (.store .word) 21, .long (.store .word) 20] k ∧
      k.sp = m.sp ∧ [20, 21].map k.memory.word = [0x123, 0x456]) ∧
    ∃ k, n.ExecutesAll [.long (.load .word) 13, .long (.load .word) 14] k ∧
      k.toCpu.top 4 = [0x123, 0x456, 0x123, 0x456] := by
  intro m n
  obtain ⟨-, -, -, -, -, -, storeLocal⟩ := long_instructions_are_word_pairs n 0 0 1
  obtain ⟨-, -, -, -, -, loadLocal, -⟩ := long_instructions_are_word_pairs n 0 0 0
  obtain ⟨-, -, -, -, store, -, -⟩ := long_instructions_are_word_pairs n 0 20 0
  obtain ⟨-, -, -, load, -, -, -⟩ := long_instructions_are_word_pairs n 0 13 0
  refine ⟨?storeLocal, ?loadLocal, ?store, ?load⟩
  case storeLocal =>
    obtain ⟨k, run, same⟩ :=
      (storeLocal (by decide +kernel) (by decide +kernel)).follows (by decide +kernel)
    refine ⟨k, run, ?_⟩
    rw [same]
    decide +kernel
  case loadLocal =>
    obtain ⟨k, run, same⟩ :=
      (loadLocal (by decide +kernel) (by decide +kernel)).follows (by decide +kernel)
    refine ⟨k, run, ?_⟩
    rw [same]
    decide +kernel
  case store =>
    obtain ⟨k, run, same⟩ := (store (by decide +kernel)).follows (by decide +kernel)
    refine ⟨k, run, ?_⟩
    rw [same]
    decide +kernel
  case load =>
    obtain ⟨k, run, same⟩ := (load (by decide +kernel)).follows (by decide +kernel)
    refine ⟨k, run, ?_⟩
    rw [same]
    decide +kernel

end TwelveBit
