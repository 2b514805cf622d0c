import TwelveBit.Proofs.Frames
/-!
Words on the stack. A stack holds words, and a value of either width is one or two of them. Popping
and pushing so many words succeeds just when all their cells allow for it, and what it comes to is
known from the words alone.
-/
namespace TwelveBit
variable {ε σ α β : Type}

/-- The effect succeeds on `s` just when `p` holds, and then gives `a` and leaves `t` behind. -/
structure Needs (p : Prop) (x : EStateM ε σ α) (s : σ) (a : α) (t : σ) : Prop where
  run_eq : p → x.run s = .ok a t
  holds : ∀ b u, x.run s = .ok b u → p

namespace Needs
variable {p q : Prop} {x : EStateM ε σ α} {f : α → EStateM ε σ β} {s t u : σ} {a : α} {b : β}

theorem of_pure (a : α) : Needs True (pure a : EStateM ε σ α) s a s :=
  ⟨fun _ => EStateM.run_pure .., fun _ _ _ => trivial⟩

theorem of_modify (f : σ → σ) (s : σ) : Needs True (modify f : EStateM ε σ Unit) s () (f s) :=
  ⟨fun _ => EStateM.run_modify .., fun _ _ _ => trivial⟩

theorem iff (h : Needs p x s a t) (hpq : p ↔ q) : Needs q x s a t :=
  ⟨fun hq => h.run_eq (hpq.2 hq), fun b u hr => hpq.1 (h.holds b u hr)⟩

/-- An effect of two parts needs what both of them need. -/
theorem bind (hx : Needs p x s a t) (hf : Needs q (f a) t b u) :
    Needs (p ∧ q) (x >>= f) s b u := by
  constructor
  case run_eq =>
    rintro ⟨hp, hq⟩
    rw [EStateM.run_bind, hx.run_eq hp]
    exact hf.run_eq hq
  case holds =>
    intro b' u' hr
    obtain ⟨a', t', h₁, h₂⟩ := ok_of_bind hr
    have hp := hx.holds a' t' h₁
    rw [hx.run_eq hp] at h₁
    cases h₁
    exact ⟨hp, hf.holds b' u' h₂⟩

/-- The second part always succeeds. -/
theorem bind_true (hx : Needs p x s a t) (hf : Needs True (f a) t b u) :
    Needs p (x >>= f) s b u := (hx.bind hf).iff (and_iff_left trivial)

theorem of_get {f : σ → EStateM ε σ α} (h : Needs p (f s) s a t) : Needs p (get >>= f) s a t :=
  have get : Needs True (get : EStateM ε σ σ) s s s :=
    ⟨fun _ => EStateM.run_get .., fun _ _ _ => trivial⟩
  (get.bind h).iff (and_iff_right trivial)

theorem bind_pure {g : α → β} (hx : Needs p x s a t) :
    Needs p (x >>= fun a => pure (g a)) s (g a) t := hx.bind_true (of_pure (g a))

theorem ok_iff (h : Needs p x s a t) : (∃ b u, x.run s = .ok b u) ↔ p :=
  ⟨fun ⟨b, u, hr⟩ => h.holds b u hr, fun hp => ⟨a, t, h.run_eq hp⟩⟩

theorem eq_of_ok (h : Needs p x s a t) {b : α} (hr : x.run s = .ok b u) : b = a ∧ u = t := by
  rw [h.run_eq (h.holds b u hr)] at hr
  cases hr
  exact ⟨rfl, rfl⟩

end Needs

structure WordList (n : Nat) (vs : List Nat) : Prop where
  length_eq : vs.length = n
  lt : ∀ v ∈ vs, v < 0x1000

namespace WordList
variable {j k : Nat} {us vs : List Nat}

theorem nil : WordList 0 [] := ⟨rfl, fun _ h => absurd h List.not_mem_nil⟩

theorem cons {v : Nat} (hv : v < 0x1000) (h : WordList k vs) : WordList (k + 1) (v :: vs) :=
  ⟨by rw [List.length_cons, h.length_eq], List.forall_mem_cons.2 ⟨hv, h.lt⟩⟩

theorem append (h : WordList j us) (h' : WordList k vs) : WordList (j + k) (us ++ vs) := by
  refine ⟨by rw [List.length_append, h.length_eq, h'.length_eq], fun v hv => ?_⟩
  exact (List.mem_append.1 hv).elim (h.lt v) (h'.lt v)

theorem take (h : WordList (j + k) vs) : WordList j (vs.take j) :=
  ⟨by simp [h.length_eq], fun v hv => h.lt v (List.mem_of_mem_take hv)⟩

theorem drop (h : WordList (j + k) vs) : WordList k (vs.drop j) :=
  ⟨by simp [h.length_eq], fun v hv => h.lt v (List.mem_of_mem_drop hv)⟩

end WordList

namespace Width

def split : Width → Nat → List Nat
  | word, v => [toWord v]
  | long, v => [high v, low v]

def value : Width → List Nat → Nat
  | word, [v] => v
  | long, [h, l] => join h l
  | _, _ => 0

def cells : Width → Nat → List Nat
  | word, a => [a]
  | long, a => [a, Memory.next a]

variable {w : Width}

theorem wordList_split (w : Width) (v : Nat) : WordList w.words (w.split v) := by
  cases w with
  | word => exact WordList.nil.cons (toWord_lt _)
  | long => exact (WordList.nil.cons (toWord_lt _)).cons (toWord_lt _)

@[simp]
theorem length_cells (a : Nat) : (w.cells a).length = w.words := by cases w <;> rfl

/-- Away from the end of the address space the cells lie side by side. -/
theorem mem_cells {a b : Nat} (ha : a + w.words ≤ 0x1000000) :
    b ∈ w.cells a ↔ a ≤ b ∧ b < a + w.words := by
  cases w with
  | word =>
    simp only [cells, words, List.mem_singleton]
    omega
  | long =>
    simp only [words] at ha
    have hnext : Memory.next a = a + 1 := toLong_of_lt (by omega)
    simp only [cells, words, hnext, List.mem_cons, List.not_mem_nil, or_false]
    omega

theorem long_split_toLong (v : Nat) : long.split (toLong v) = long.split v := by
  simp only [split, high, low, toLong, toWord, List.cons.injEq, and_true]
  omega

theorem split_value {vs : List Nat} (h : WordList w.words vs) : w.split (w.value vs) = vs := by
  have hlt := h.lt
  match w, vs, h.length_eq with
  | word, [v], _ => exact congrArg (· :: []) (toWord_of_lt (hlt v (by simp)))
  | long, [h, l], _ =>
    simp only [split, value, high_join, low_join]
    rw [toWord_of_lt (hlt h (by simp)), toWord_of_lt (hlt l (by simp))]

theorem value_lt {n : Nat} {vs : List Nat} (h : WordList n vs) : w.value vs < w.size := by
  have hlt := h.lt
  unfold value
  split
  · exact hlt _ (by simp)
  · exact join_lt _ _
  · exact w.size_pos

end Width

namespace Memory
variable (m : Memory)

def wordsFrom (a n : Nat) : List Nat := (List.range n).map fun i => m.word (toLong (a + i))

@[simp]
theorem length_wordsFrom (a n : Nat) : (m.wordsFrom a n).length = n := by simp [wordsFrom]

theorem wordsFrom_one (a : Nat) : m.wordsFrom a 1 = [m.word (toLong a)] := rfl

theorem wordsFrom_add (a j k : Nat) :
    m.wordsFrom a (j + k) = m.wordsFrom a j ++ m.wordsFrom (a + j) k := by
  simp only [wordsFrom, List.range_add, List.map_append, List.map_map, Function.comp_def,
    Nat.add_assoc]

theorem wordsFrom_congr {a b : Nat} (h : toLong a = toLong b) (n : Nat) :
    m.wordsFrom a n = m.wordsFrom b n := by
  refine List.map_congr_left fun i _ => congrArg m.word ?_
  simp only [toLong] at h ⊢
  omega

theorem map_word_cells {w : Width} {a : Nat} (ha : a < 0x1000000) :
    (w.cells a).map m.word = m.wordsFrom a w.words := by
  have hfirst : toLong (a + 0) = a := toLong_of_lt ha
  cases w with
  | word => exact congrArg (fun b => [m.word b]) hfirst.symm
  | long => exact congrArg (fun b => [m.word b, m.word (next a)]) hfirst.symm

theorem wordList_map {m : Memory} (hm : m.Masked) (as : List Nat) :
    WordList as.length (as.map m.word) := by
  refine ⟨List.length_map _, fun v hv => ?_⟩
  obtain ⟨a, -, rfl⟩ := List.mem_map.1 hv
  exact hm a

theorem ne_next (a : Nat) : a ≠ next a := by
  simp only [next, toLong]
  omega

theorem put_toWord (a v : Nat) : m.put a (toWord v) = m.put a v := by
  rw [put, toWord_of_lt (toWord_lt v), put]

def putAt (m : Memory) : Width → Nat → Nat → Memory
  | .word, a, v => m.put a v
  | .long, a, v => (m.put a (high v)).put (next a) (low v)

theorem agree_putAt (w : Width) (a v : Nat) : Agree (fun b => b ∉ w.cells a) m (m.putAt w a v) := by
  cases w with
  | word => exact Agree.set _ _ fun h => h (List.mem_singleton_self a)
  | long =>
    have first : Agree (fun b => b ∉ Width.long.cells a) m (m.put a (high v)) :=
      Agree.set _ _ fun h => h List.mem_cons_self
    exact first.trans (Agree.set _ _ fun h => h (List.mem_cons_of_mem _ List.mem_cons_self))

/-- What has been stored is read back. -/
theorem map_word_putAt {w : Width} {a : Nat} (h : ∀ b ∈ w.cells a, b < m.layout.total) (v : Nat) :
    (w.cells a).map (m.putAt w a v).word = w.split v := by
  have hmask (x : Nat) : toWord (toWord x) = toWord x := toWord_of_lt (toWord_lt x)
  cases w with
  | word =>
    have ha : a < m.layout.total := h a List.mem_cons_self
    simp only [Width.cells, Width.split, putAt, List.map_cons, List.map_nil, word_put, ha,
      and_self, if_true]
  | long =>
    have ha : a < m.layout.total := h a List.mem_cons_self
    have hn : next a < m.layout.total := h _ (List.mem_cons_of_mem _ List.mem_cons_self)
    have hne := ne_next a
    simp only [Width.cells, Width.split, putAt, List.map_cons, List.map_nil, word_put, layout_put,
      ha, hn, hne, and_self, false_and, if_true, if_false, high, low, hmask]

end Memory

namespace Cpu
open Memory
variable {c : Cpu} {w : Width} {us vs : List Nat}

def top (k : Nat) (c : Cpu) : List Nat := c.memory.wordsFrom (back c.sp k + 1) k

def drop (k : Nat) (c : Cpu) : Cpu := { c with sp := back c.sp k }

def Poppable (k : Nat) (c : Cpu) : Prop := ∀ j < k, back c.sp j < c.memory.layout.total

def Pushable (n : Nat) (c : Cpu) : Prop := ∀ j < n, c.slot j < c.memory.layout.romBase

instance (k : Nat) (c : Cpu) : Decidable (Poppable k c) :=
  inferInstanceAs (Decidable (∀ j < k, back c.sp j < c.memory.layout.total))

instance (n : Nat) (c : Cpu) : Decidable (Pushable n c) :=
  inferInstanceAs (Decidable (∀ j < n, c.slot j < c.memory.layout.romBase))

def pushing (vs : List Nat) (c : Cpu) : Cpu :=
  vs.foldl (fun c v =>
    { c with
      memory := c.memory.put (next c.sp) v
      sp := next c.sp
      highWater := max c.highWater (next c.sp) }) c

@[simp]
theorem length_top (k : Nat) : (c.top k).length = k := length_wordsFrom ..

theorem wordList_top (hm : c.memory.Masked) (k : Nat) : WordList k (c.top k) := by
  refine ⟨length_top k, fun v hv => ?_⟩
  obtain ⟨i, -, rfl⟩ := List.mem_map.1 hv
  exact hm _

theorem drop_sp_lt (k : Nat) (c : Cpu) : (c.drop k).sp < 0x1000000 := back_lt ..

theorem drop_drop (j k : Nat) (c : Cpu) : (c.drop j).drop k = c.drop (j + k) := by
  simp only [drop]
  congr 1
  simp only [back, toLong]
  omega

theorem drop_zero (hsp : c.sp < 0x1000000) : c.drop 0 = c := by
  have hback : back c.sp 0 = c.sp := by
    simp only [back, toLong]
    omega
  rw [drop, hback]

theorem top_add (j k : Nat) : c.top (j + k) = (c.drop k).top j ++ c.top k := by
  rw [top, wordsFrom_add]
  congr 1 <;> refine wordsFrom_congr _ ?_ _ <;> simp only [drop, back, toLong] <;> omega

theorem top_one (hsp : c.sp < 0x1000000) : c.top 1 = [c.memory.word c.sp] := by
  have hback : toLong (back c.sp 1 + 1) = c.sp := by
    simp only [back, toLong]
    omega
  rw [top, wordsFrom_one, hback]

theorem poppable_add {j k : Nat} :
    Poppable (j + k) c ↔ Poppable j c ∧ Poppable k (c.drop j) := by
  have hback (i : Nat) : back (back c.sp j) i = back c.sp (j + i) := by
    simp only [back, toLong]
    omega
  constructor
  · intro h
    refine ⟨fun i hi => h i (by omega), fun i hi => ?_⟩
    show back (back c.sp j) i < c.memory.layout.total
    rw [hback]
    exact h _ (by omega)
  · rintro ⟨h₁, h₂⟩ i hi
    by_cases hij : i < j
    · exact h₁ i hij
    · have := h₂ (i - j) (by omega)
      change back (back c.sp j) (i - j) < c.memory.layout.total at this
      rwa [hback, Nat.add_sub_cancel' (Nat.not_lt.1 hij)] at this

theorem poppable_zero : Poppable 0 c := fun _ h => absurd h (Nat.not_lt_zero _)

theorem pushable_zero : Pushable 0 c := fun _ h => absurd h (Nat.not_lt_zero _)

theorem pushing_append : pushing (us ++ vs) c = pushing vs (pushing us c) := List.foldl_append

/-- A push drops the bits that do not fit into a word. -/
theorem pushing_map_toWord (vs : List Nat) (c : Cpu) :
    pushing (vs.map toWord) c = pushing vs c := by
  induction vs generalizing c with
  | nil => rfl
  | cons v vs ih =>
    have first : pushing [toWord v] c = pushing [v] c := by
      simp only [pushing, List.foldl, put_toWord]
    exact (ih (pushing [toWord v] c)).trans (congrArg (pushing vs) first)

theorem pushing_layout : (pushing vs c).memory.layout = c.memory.layout := by
  induction vs generalizing c with
  | nil => rfl
  | cons v vs ih => exact ih.trans (layout_put _ _ _)

theorem pushing_carry (b : Bool) :
    { pushing vs c with carry := b } = pushing vs { c with carry := b } := by
  induction vs generalizing c with
  | nil => rfl
  | cons v vs ih => exact ih

theorem pushing_slot (i : Nat) : (pushing vs c).slot i = c.slot (vs.length + i) := by
  induction vs generalizing c i with
  | nil => simp [pushing]
  | cons v vs ih =>
    have h := ih (c := pushing [v] c) i
    refine h.trans ?_
    simp only [pushing, slot, List.foldl, List.length_cons, next, toLong]
    omega

theorem pushable_add (us : List Nat) {j k : Nat} (hl : us.length = j) :
    Pushable (j + k) c ↔ Pushable j c ∧ Pushable k (pushing us c) := by
  simp only [Pushable, pushing_slot, pushing_layout, hl]
  constructor
  · exact fun h => ⟨fun i hi => h i (by omega), fun i hi => h (j + i) (by omega)⟩
  · rintro ⟨h₁, h₂⟩ i hi
    by_cases hij : i < j
    · exact h₁ i hij
    · have := h₂ (i - j) (by omega)
      rwa [Nat.add_sub_cancel' (Nat.not_lt.1 hij)] at this

theorem needs_pop_mapped (c : Cpu) :
    Needs (c.sp < c.memory.layout.total) pop c (c.memory.word c.sp) (c.drop 1) := by
  constructor
  · intro h
    rw [run_pop, if_pos h]
    rfl
  · intro v d h
    rw [run_pop] at h
    split at h
    · assumption
    · cases h

theorem needs_pop (hsp : c.sp < 0x1000000) :
    Needs (Poppable 1 c) pop c (c.memory.word c.sp) (c.drop 1) := by
  have hback : back c.sp 0 = c.sp := by
    simp only [back, toLong]
    omega
  refine (needs_pop_mapped c).iff ?_
  simp only [Poppable, Nat.lt_one_iff, forall_eq, hback]

theorem needs_popAt (hsp : c.sp < 0x1000000) :
    Needs (Poppable w.words c) (popAt w) c (w.value (c.top w.words)) (c.drop w.words) := by
  cases w with
  | word =>
    have h := needs_pop hsp
    rwa [show c.memory.word c.sp = Width.word.value (c.top 1) by rw [top_one hsp]; rfl] at h
  | long =>
    have h : Needs (Poppable 1 c ∧ Poppable 1 (c.drop 1)) popLong c
        (join ((c.drop 1).memory.word (c.drop 1).sp) (c.memory.word c.sp)) ((c.drop 1).drop 1) :=
      (needs_pop hsp).bind (needs_pop (drop_sp_lt 1 c)).bind_pure
    have hv : join ((c.drop 1).memory.word (c.drop 1).sp) (c.memory.word c.sp) =
        Width.long.value (c.top 2) := by
      rw [top_add 1 1, top_one hsp, top_one (drop_sp_lt 1 c)]
      rfl
    rw [drop_drop, hv] at h
    exact h.iff poppable_add.symm

theorem needs_read (a : Nat) :
    Needs (a < c.memory.layout.total) (read a) c (c.memory.word a) c := by
  constructor
  · exact fun h => by rw [run_read, if_pos h]
  · intro v d h
    rw [run_read] at h
    split at h
    · assumption
    · cases h

theorem needs_readAt (a : Nat) :
    Needs (∀ b ∈ w.cells a, b < c.memory.layout.total) (readAt w a) c
      (w.value ((w.cells a).map c.memory.word)) c := by
  cases w with
  | word => exact (needs_read a).iff (by simp [Width.cells])
  | long =>
    refine ((needs_read a).bind ((needs_read (next a)).bind_pure
      (g := fun low => join (c.memory.word a) low))).iff ?_
    simp [Width.cells]

theorem needs_push (v : Nat) : Needs (Pushable 1 c) (push v) c () (pushing [v] c) := by
  have hp : Pushable 1 c ↔ c.memory.refusal? (next c.sp) = none := by
    simp only [Pushable, Nat.lt_one_iff, forall_eq, refusal?_eq_none_iff]
    rfl
  constructor
  · intro h
    rw [run_push, hp.1 h]
    rfl
  · intro u d h
    rw [run_push] at h
    cases hr : c.memory.refusal? (next c.sp) with
    | some f => simp only [hr, reduceCtorEq] at h
    | none => exact hp.2 hr

theorem needs_pushAt (v : Nat) :
    Needs (Pushable w.words c) (pushAt w v) c () (pushing (w.split v) c) := by
  cases w with
  | word =>
    have masked : pushing [toWord v] c = pushing [v] c := pushing_map_toWord [v] c
    exact masked ▸ needs_push v
  | long =>
    have h : Needs (Pushable 1 c ∧ Pushable 1 (pushing [high v] c)) (pushLong v) c ()
        (pushing [low v] (pushing [high v] c)) := (needs_push _).bind (needs_push _)
    exact h.iff (pushable_add [high v] rfl).symm

theorem needs_writeAt (a v : Nat) :
    Needs (∀ b ∈ w.cells a, b < c.memory.layout.romBase) (writeAt w a v) c ()
      { c with memory := c.memory.putAt w a v } := by
  have hp : (∀ b ∈ w.cells a, b < c.memory.layout.romBase) ↔
      ∀ b ∈ w.cells a, c.memory.refusal? b = none := by
    simp only [refusal?_eq_none_iff]
  cases w with
  | word =>
    constructor
    · intro h
      rw [writeAt, run_write, hp.1 h a List.mem_cons_self]
      rfl
    · intro u d h
      rw [writeAt, run_write] at h
      cases hr : c.memory.refusal? a with
      | some f => simp only [hr, reduceCtorEq] at h
      | none => exact hp.2 (by simpa [Width.cells] using hr)
  | long =>
    have hor : (∀ b ∈ Width.long.cells a, c.memory.refusal? b = none) ↔
        (c.memory.refusal? a).or (c.memory.refusal? (next a)) = none := by
      simp [Width.cells, Option.or_eq_none_iff]
    constructor
    · intro h
      rw [writeAt, run_onMemory, run_writeLong, hor.1 (hp.1 h)]
      rfl
    · intro u d h
      rw [writeAt, run_onMemory, run_writeLong] at h
      cases hr : (c.memory.refusal? a).or (c.memory.refusal? (next a)) with
      | some f => simp only [hr, reduceCtorEq] at h
      | none => exact hp.2 (hor.2 hr)

/-- Pushing so many words leaves them on the stack and nothing else. -/
theorem pushed_pushing (hsp : c.sp < 0x1000000) (hlen : vs.length ≤ 0x1000000)
    (h : Pushable vs.length c) : Pushed vs c (pushing vs c) := by
  induction vs generalizing c with
  | nil => exact Pushed.nil hsp
  | cons v vs ih =>
    rw [List.length_cons] at hlen
    obtain ⟨h₁, h₂⟩ := (pushable_add [v] (j := 1) (k := vs.length) rfl).1
      (by rwa [Nat.add_comm 1])
    have first : Pushed [v] c (pushing [v] c) := pushed_of_push ((needs_push v).run_eq h₁)
    have hsp' : (pushing [v] c).sp < 0x1000000 := toLong_lt _
    exact first.append (ih hsp' (by omega) h₂) (by simpa using hlen)

theorem Pushed.wordsFrom {d : Cpu} {n : Nat} (h : Pushed vs c d) (hvs : WordList n vs) :
    d.memory.wordsFrom (c.sp + 1) n = vs := by
  refine List.ext_getElem (by simp [hvs.length_eq]) fun i h₁ h₂ => ?_
  have hw := h.word_slot i h₂
  rw [toWord_of_lt (hvs.lt _ (List.getElem_mem h₂))] at hw
  simpa only [Memory.wordsFrom, slot, List.getElem_map, List.getElem_range] using hw

end Cpu

end TwelveBit
