import TwelveBit.Proofs.ExactArithmetic
import TwelveBit.Proofs.StackWords
import TwelveBit.Proofs.WellFormed
/-!
Stack effects. Most instructions pop some words, look at some others, and push words computed from
them. A table says how many and which; an instruction succeeds exactly where its row can be
carried out, and does nothing to memory but what its row says.
-/
namespace TwelveBit
open Cpu

/-- What results are computed from: the words that have been popped, those that have been read
elsewhere, and two registers. -/
structure Operands where
  popped : List Nat
  loaded : List Nat
  fp : Nat
  carry : Bool

namespace Operands

def lower (w : Width) (o : Operands) : Nat := w.value (o.popped.take w.words)

def upper (w : Width) (o : Operands) : Nat := w.value (o.popped.drop w.words)

end Operands

structure StackEffect where
  pops : Nat
  pushes : Nat
  cells : Cpu → List Nat := fun _ => []
  Defined : Operands → Prop := fun _ => True
  results : Operands → List Nat := fun _ => []
  carry : Operands → Bool := Operands.carry

def BinaryOp.Divides (op : BinaryOp) : Prop := op = .div ∨ op = .mod

def BinaryOp.result (op : BinaryOp) (w : Width) (a b : Nat) : AluResult :=
  (op.apply w a b).toOption.getD (.plain 0)

def AluOp.stackEffect : AluOp → StackEffect
  | binary op w =>
    { pops := w.words + w.words
      pushes := w.words
      Defined := fun o => op.Divides → o.upper w ≠ 0
      results := fun o => w.split (op.result w (o.lower w) (o.upper w)).value
      carry := fun o => (op.result w (o.lower w) (o.upper w)).carry.getD o.carry }
  | unary op w =>
    { pops := w.words
      pushes := w.words
      results := fun o => w.split (op.apply w (w.value o.popped) o.carry).value
      carry := fun o => (op.apply w (w.value o.popped) o.carry).carry.getD o.carry }
  | wideMul =>
    { pops := 2
      pushes := 2
      results := fun o => Width.long.split (o.lower .word * o.upper .word)
      carry := fun _ => false }
  | widen => { pops := 1, pushes := 2, results := fun o => 0 :: o.popped }
  | widenSigned =>
    { pops := 1
      pushes := 2
      results := fun o =>
        (if Width.word.signed (Width.word.value o.popped) < 0 then 0xFFF else 0) :: o.popped }
  | narrow => { pops := 2, pushes := 1, results := fun o => o.popped.drop 1 }

def Condition.words : Condition → Nat
  | always | carry | noCarry => 0
  | zero w | nonzero w | positive w | negative w | nonnegative w | nonpositive w => w.words
  | equal | different => 2

def Jump.stackEffect : Jump → StackEffect
  | absolute condition _ => { pops := condition.words, pushes := 0 }
  | relative => { pops := 1, pushes := 0 }

def Cpu.countCell (c : Cpu) : Nat := toLong (c.fp + 4)

def Cpu.Counted (c : Cpu) : Prop := c.fp + 4 < c.memory.layout.total

def Cpu.localCell (k : Nat) (c : Cpu) : Nat :=
  toLong (back c.fp (c.memory.word c.countCell) + k)

def Instruction.stackEffect? : Instruction → Option StackEffect
  | plain (.pop w) => some { pops := w.words, pushes := 0 }
  | plain (.dup w) => some
    { pops := w.words
      pushes := w.words + w.words
      results := fun o => o.popped ++ o.popped }
  | plain (.swap w) => some
    { pops := w.words + w.words
      pushes := w.words + w.words
      results := fun o => o.popped.drop w.words ++ o.popped.take w.words }
  | plain .dupSecond => some
    { pops := 2, pushes := 3, results := fun o => o.popped ++ o.popped.take 1 }
  | plain (.loadAt w) => some
    { pops := 2
      pushes := w.words
      cells := fun c => w.cells (Width.long.value (c.top 2))
      results := Operands.loaded }
  | plain (.alu op) => some op.stackEffect
  | word .push k => some { pops := 0, pushes := 1, results := fun _ => Width.word.split k }
  | word (.loadLocal w) k => some
    { pops := 0
      pushes := w.words
      cells := fun c => c.countCell :: w.cells (c.localCell k)
      results := fun o => o.loaded.drop 1 }
  | word .addrLocal k => some
    { pops := 0
      pushes := 2
      cells := fun c => [c.countCell]
      results := fun o =>
        Width.long.split (toLong (back o.fp (Width.word.value o.loaded) + k)) }
  | long .push v => some { pops := 0, pushes := 2, results := fun _ => Width.long.split v }
  | long (.load w) a => some
    { pops := 0, pushes := w.words, cells := fun _ => w.cells a, results := Operands.loaded }
  | jump j => some j.stackEffect
  | _ => none

namespace StackEffect
variable (e : StackEffect) (c : Cpu)

def operands : Operands := ⟨c.top e.pops, (e.cells c).map c.memory.word, c.fp, c.carry⟩

structure Allowed : Prop where
  poppable : c.Poppable e.pops
  mapped : ∀ a ∈ e.cells c, a < c.memory.layout.total
  defined : e.Defined (e.operands c)
  pushable : (c.drop e.pops).Pushable e.pushes

def after : Cpu :=
  pushing (e.results (e.operands c)) { c.drop e.pops with carry := e.carry (e.operands c) }

def Describes {α : Type} (x : Effect α) : Prop := ∃ a, Needs (e.Allowed c) x c a (e.after c)

end StackEffect

namespace Cpu
variable {α : Type} {c d : Cpu} {w : Width} {us vs : List Nat} {p : Prop} {a : α}

def Pushes (vs : List Nat) (x : Effect α) (c : Cpu) (a : α) : Prop :=
  Needs (Pushable vs.length c) x c a (pushing vs c)

theorem pushes_pushAt {v : Nat} (h : w.split v = vs) (c : Cpu) : Pushes vs (pushAt w v) c () := by
  subst h
  exact (needs_pushAt v).iff (by rw [(Width.wordList_split w v).length_eq])

theorem Pushes.append {x : Effect Unit} {y : Effect α} (hx : Pushes us x c ())
    (hy : Pushes vs y (pushing us c) a) : Pushes (us ++ vs) (x >>= fun _ => y) c a := by
  have h := Needs.bind (f := fun _ => y) hx hy
  rw [← pushing_append] at h
  exact h.iff (by rw [List.length_append]; exact (pushable_add us rfl).symm)

theorem Pushes.return {x : Effect Unit} (hx : Pushes vs x c ()) (a : α) :
    Pushes vs (x >>= fun _ => pure a) c a := Needs.bind_pure hx

theorem Pushes.needs {x : Effect α} {n : Nat} (h : Pushes vs x c a) (hl : WordList n vs) :
    Needs (Pushable n c) x c a (pushing vs c) := hl.length_eq ▸ h

theorem needs_without_pop {x : Effect α} (hsp : c.sp < 0x1000000)
    (h : Needs p x (c.drop 0) a d) : Needs (Poppable 0 c ∧ p) x c a d := by
  rw [drop_zero hsp] at h
  exact h.iff (and_iff_right poppable_zero).symm

/-- Two operands are popped, the upper one first. -/
theorem needs_popAt_twice {f : Nat → Nat → Effect α} (hsp : c.sp < 0x1000000) (w : Width)
    (hf : Needs p (f (w.value ((c.top (w.words + w.words)).drop w.words))
      (w.value ((c.top (w.words + w.words)).take w.words))) (c.drop (w.words + w.words)) a d) :
    Needs (Poppable (w.words + w.words) c ∧ p)
      (popAt w >>= fun b => popAt w >>= fun a => f b a) c a d := by
  -- the second operand is on top of the stack that the first one leaves
  have hlen : ((c.drop w.words).top w.words).length = w.words := length_top _
  rw [top_add, List.drop_left' hlen, List.take_left' hlen, ← drop_drop] at hf
  have second := (needs_popAt (drop_sp_lt w.words c)).bind hf
  have first := (needs_popAt hsp).bind (f := fun b => popAt w >>= fun a => f b a) second
  exact first.iff (by rw [poppable_add, and_assoc])

/-- What has been read is pushed as it stands. -/
theorem needs_load {f : Nat → Effect α} (hm : c.memory.Masked) (address : Nat)
    (hf : ∀ v vs, w.split v = vs → Pushes vs (f v) c a) :
    Needs ((∀ b ∈ w.cells address, b < c.memory.layout.total) ∧ Pushable w.words c)
      (readAt w address >>= f) c a (pushing ((w.cells address).map c.memory.word) c) := by
  have words : WordList w.words ((w.cells address).map c.memory.word) :=
    Width.length_cells (w := w) address ▸ Memory.wordList_map hm _
  exact (needs_readAt address).bind ((hf _ _ (Width.split_value words)).needs words)

theorem needs_ofExcept (r : Except Fault α) (b : α) :
    Needs (∃ a, r = .ok a) (Effect.ofExcept r) c (r.toOption.getD b) c := by
  constructor
  case run_eq =>
    rintro ⟨a, rfl⟩
    rfl
  case holds =>
    intro a d h
    cases r with
    | ok a => exact ⟨a, rfl⟩
    | error f => cases h

end Cpu

namespace StackEffect
variable {α : Type} {e : StackEffect} {c : Cpu} {x : Effect α} {a : α}

theorem describes_of_loading (hdefined : e.Defined (e.operands c))
    (h : Needs (Poppable e.pops c ∧ (∀ a ∈ e.cells c, a < c.memory.layout.total) ∧
      Pushable e.pushes (c.drop e.pops)) x c a (e.after c)) : e.Describes c x :=
  ⟨a, h.iff ⟨fun ⟨hpop, hcells, hpush⟩ => ⟨hpop, hcells, hdefined, hpush⟩,
    fun h => ⟨h.poppable, h.mapped, h.pushable⟩⟩⟩

/-- A row that asks for nothing but operands and room. -/
theorem describes_of (hcells : e.cells c = []) (hdefined : e.Defined (e.operands c))
    (h : Needs (Poppable e.pops c ∧ Pushable e.pushes (c.drop e.pops)) x c a (e.after c)) :
    e.Describes c x := by
  have none : ∀ a ∈ e.cells c, a < c.memory.layout.total := by
    rw [hcells]
    exact fun a ha => absurd ha List.not_mem_nil
  exact describes_of_loading hdefined (h.iff (and_congr_right' (and_iff_right none).symm))

theorem Describes.return (h : e.Describes c x) {β : Type} (b : β) :
    e.Describes c (x >>= fun _ => pure b) :=
  have ⟨_, h⟩ := h
  ⟨b, h.bind_pure⟩

end StackEffect

theorem Operands.lower_lt {o : Operands} {w : Width}
    (h : WordList (w.words + w.words) o.popped) : o.lower w < w.size := Width.value_lt h.take

theorem Operands.upper_lt {o : Operands} {w : Width}
    (h : WordList (w.words + w.words) o.popped) : o.upper w < w.size := Width.value_lt h.drop

/-- Only a division by zero has no result. -/
theorem BinaryOp.exists_ok_iff {op : BinaryOp} {w : Width} {a b : Nat} (hb : b < w.size) :
    (∃ r, op.apply w a b = .ok r) ↔ (op.Divides → b ≠ 0) := by
  have fails := (exact_apply w a b).fails op .divideByZero
  rw [Nat.mod_eq_of_lt (w.size_eq_pow ▸ hb)] at fails
  constructor
  · rintro ⟨r, hr⟩ hdiv hz
    rw [fails.2 ⟨rfl, hdiv, hz⟩] at hr
    cases hr
  · intro h
    cases hr : op.apply w a b with
    | ok r => exact ⟨r, rfl⟩
    | error f =>
      obtain ⟨-, hdiv, hz⟩ := ((exact_apply w a b).fails op f).1 hr
      rw [Nat.mod_eq_of_lt (w.size_eq_pow ▸ hb)] at hz
      exact absurd hz (h hdiv)

theorem wideProduct_of_lt {a b : Nat} (ha : a < 0x1000) (hb : b < 0x1000) :
    wideProduct a b = ⟨a * b, some false⟩ := by
  have product : wideProduct a b = ⟨toWord a * toWord b, some false⟩ := wideProduct_eq_mul a b
  rw [product, toWord_of_lt ha, toWord_of_lt hb]

namespace Width
variable {vs : List Nat}

theorem long_split_word (h : WordList 1 vs) : long.split (word.value vs) = 0 :: vs := by
  have hlt := h.lt
  match vs, h.length_eq with
  | [v], _ =>
    have hv : v < 0x1000 := hlt v (by simp)
    have hhigh : high v = 0 := by
      simp only [high, toWord]
      omega
    simp only [split, value, hhigh, low, toWord_of_lt hv]

/-- The sign fills the high word. -/
theorem long_split_signed (h : WordList 1 vs) :
    long.split (word.signed (word.value vs) % 0x1000000).toNat =
      (if word.signed (word.value vs) < 0 then 0xFFF else 0) :: vs := by
  have hlt := h.lt
  match vs, h.length_eq with
  | [v], _ =>
    have hv : v < 0x1000 := hlt v (by simp)
    have hmod : v % word.size = v := Nat.mod_eq_of_lt hv
    simp only [split, value, signed, hmod, high, low, toWord]
    by_cases hsign : v < word.signBit
    · rw [if_pos hsign, if_neg (by omega)]
      simp only [List.cons.injEq, and_true]
      omega
    · have hneg : (v : Int) - word.size < 0 := by
        simp only [size]
        omega
      rw [if_neg hsign, if_pos hneg]
      simp only [size, signBit, List.cons.injEq, and_true] at hsign ⊢
      omega

theorem word_split_long (h : WordList 2 vs) : word.split (low (long.value vs)) = vs.drop 1 := by
  have hlt := h.lt
  match vs, h.length_eq with
  | [a, b], _ =>
    have hb : b < 0x1000 := hlt b (by simp)
    simp only [split, value, low_join, toWord_of_lt hb, List.drop_succ_cons, List.drop_zero]

end Width

namespace AluOp
variable {c : Cpu} {w : Width}

theorem needs_finish (w : Width) (r : AluResult) (c : Cpu) :
    Needs (Pushable w.words c) (finish w r) c ()
      (pushing (w.split r.value) { c with carry := r.carry.getD c.carry }) := by
  obtain ⟨v, carry⟩ := r
  have push := needs_pushAt (w := w) (c := c) v
  cases carry with
  | none => exact push.bind_true (Needs.of_pure ())
  | some b =>
    have set := Needs.of_modify (ε := Fault) (fun d : Cpu => { d with carry := b })
      (pushing (w.split v) c)
    rw [pushing_carry] at set
    exact push.bind_true set

theorem needs_finish_of {r : AluResult} {vs : List Nat} {b : Bool} (hv : w.split r.value = vs)
    (hb : r.carry.getD c.carry = b) :
    Needs (Pushable w.words c) (finish w r) c () (pushing vs { c with carry := b }) :=
  hv ▸ hb ▸ needs_finish w r c

theorem describes_run (op : AluOp) (hm : c.memory.Masked) (hsp : c.sp < 0x1000000) :
    op.stackEffect.Describes c op.run := by
  have words (k : Nat) : WordList k (c.top k) := wordList_top hm k
  cases op with
  | unary op w =>
    have run : Needs _ (AluOp.unary op w).run c _ _ :=
      (needs_popAt hsp).bind (Needs.of_get (needs_finish w _ _))
    exact StackEffect.describes_of rfl trivial run
  | binary op w =>
    have run : Needs _ (AluOp.binary op w).run c _ _ :=
      needs_popAt_twice hsp w ((needs_ofExcept _ (.plain 0)).bind (needs_finish w _ _))
    have upper : ((AluOp.binary op w).stackEffect.operands c).upper w < w.size :=
      Operands.upper_lt (words _)
    -- a row with a condition of its own: between popping and pushing there has to be a result
    refine ⟨(), run.iff ⟨fun ⟨hpop, hok, hpush⟩ => ?_, fun h => ?_⟩⟩
    · exact ⟨hpop, fun a ha => absurd ha List.not_mem_nil, (BinaryOp.exists_ok_iff upper).1 hok,
        hpush⟩
    · exact ⟨h.poppable, (BinaryOp.exists_ok_iff upper).2 h.defined, h.pushable⟩
  | wideMul =>
    have two : WordList (Width.word.words + Width.word.words)
        (AluOp.wideMul.stackEffect.operands c).popped := words 2
    have product := wideProduct_of_lt (Operands.lower_lt two) (Operands.upper_lt two)
    have push := needs_finish_of (w := .long) (c := c.drop 2)
      (congrArg (fun r => Width.long.split r.value) product)
      (congrArg (fun r => r.carry.getD c.carry) product)
    exact StackEffect.describes_of rfl trivial (needs_popAt_twice hsp .word push)
  | widen =>
    have push := needs_finish_of (w := .long) (r := .plain _) (c := c.drop 1)
      (Width.long_split_word (words 1)) rfl
    exact StackEffect.describes_of rfl trivial ((needs_popAt (w := .word) hsp).bind push)
  | widenSigned =>
    have push := needs_finish_of (w := .long) (r := .plain _) (c := c.drop 1)
      (Width.long_split_signed (words 1)) rfl
    exact StackEffect.describes_of rfl trivial ((needs_popAt (w := .word) hsp).bind push)
  | narrow =>
    have push := needs_finish_of (w := .word) (r := .plain _) (c := c.drop 2)
      (Width.word_split_long (words 2)) rfl
    exact StackEffect.describes_of rfl trivial ((needs_popAt (w := .long) hsp).bind push)

end AluOp

def Condition.met (o : Operands) : Condition → Bool
  | always => true
  | zero w => w.value o.popped = 0
  | nonzero w => w.value o.popped ≠ 0
  | carry => o.carry
  | noCarry => !o.carry
  | positive w => 0 < w.signed (w.value o.popped)
  | negative w => w.signed (w.value o.popped) < 0
  | nonnegative w => 0 ≤ w.signed (w.value o.popped)
  | nonpositive w => w.signed (w.value o.popped) ≤ 0
  | equal => o.lower .word = o.upper .word
  | different => o.lower .word ≠ o.upper .word

def Jump.target (next : Nat) (o : Operands) : Jump → Nat
  | absolute condition target => if condition.met o then target else next
  | relative => ((next + Width.word.signed (Width.word.value o.popped)) % 0x1000000).toNat

theorem Condition.needs_holds {c : Cpu} (hsp : c.sp < 0x1000000) (condition : Condition) :
    Needs (Poppable condition.words c) condition.holds c
      (condition.met ⟨c.top condition.words, [], c.fp, c.carry⟩) (c.drop condition.words) := by
  cases condition with
  | always => exact (needs_without_pop hsp (Needs.of_pure _)).iff (and_iff_left trivial)
  | carry =>
    have get : Needs True Condition.carry.holds (c.drop 0) c.carry (c.drop 0) :=
      Needs.of_get (Needs.of_pure c.carry)
    exact (needs_without_pop hsp get).iff (and_iff_left trivial)
  | noCarry =>
    have get : Needs True Condition.noCarry.holds (c.drop 0) (!c.carry) (c.drop 0) :=
      Needs.of_get (Needs.of_pure (!c.carry))
    exact (needs_without_pop hsp get).iff (and_iff_left trivial)
  | zero | nonzero | positive | negative | nonnegative | nonpositive =>
    exact (needs_popAt hsp).bind_pure
  | equal | different =>
    exact (needs_popAt_twice hsp .word (Needs.of_pure _)).iff (and_iff_left trivial)

/-- A jump pops its operands whether or not it is taken. -/
theorem Jump.needs_run {c : Cpu} (hsp : c.sp < 0x1000000) (next : Nat) (j : Jump) :
    Needs (j.stackEffect.Allowed c) (j.run next) c (j.target next (j.stackEffect.operands c))
      (j.stackEffect.after c) := by
  have allowed : Poppable j.stackEffect.pops c ↔ j.stackEffect.Allowed c := by
    refine ⟨fun h => ?_, fun h => h.poppable⟩
    cases j <;> exact ⟨h, fun a ha => absurd ha List.not_mem_nil, trivial, pushable_zero⟩
  cases j with
  | absolute condition target => exact (condition.needs_holds hsp).bind_pure.iff allowed
  | relative => exact (needs_popAt (w := .word) hsp).bind_pure.iff allowed

theorem PlainOp.describes_run {op : PlainOp} {e : StackEffect} {c : Cpu}
    (he : (Instruction.plain op).stackEffect? = some e) (hm : c.memory.Masked)
    (hsp : c.sp < 0x1000000) (next : Nat) : e.Describes c (op.run next) := by
  have words (k : Nat) : WordList k (c.top k) := wordList_top hm k
  cases op with
  | pop w =>
    cases he
    exact StackEffect.describes_of rfl trivial
      ((needs_popAt hsp).bind_pure.iff (and_iff_left pushable_zero).symm)
  | dup w =>
    cases he
    have same := Width.split_value (words w.words)
    have push := (pushes_pushAt same (c.drop w.words)).append ((pushes_pushAt same _).return next)
    exact StackEffect.describes_of rfl trivial
      ((needs_popAt hsp).bind (push.needs ((words _).append (words _))))
  | swap w =>
    cases he
    have two := words (w.words + w.words)
    have push := (pushes_pushAt (Width.split_value two.drop) (c.drop (w.words + w.words))).append
      ((pushes_pushAt (Width.split_value two.take) _).return next)
    exact StackEffect.describes_of rfl trivial
      (needs_popAt_twice hsp w (push.needs (two.drop.append two.take)))
  | dupSecond =>
    cases he
    have two : WordList (Width.word.words + Width.word.words) (c.top 2) := words 2
    have lower := Width.split_value two.take
    have push := (pushes_pushAt lower (c.drop 2)).append
      ((pushes_pushAt (Width.split_value two.drop) _).append ((pushes_pushAt lower _).return next))
    rw [← List.append_assoc, List.take_append_drop] at push
    exact StackEffect.describes_of rfl trivial
      (needs_popAt_twice hsp .word (push.needs (two.append two.take)))
  | loadAt w =>
    cases he
    have push := needs_load (c := c.drop 2) (w := w) hm (Width.long.value (c.top 2))
      fun v vs h => (pushes_pushAt h _).return next
    exact StackEffect.describes_of_loading trivial ((needs_popAt (w := .long) hsp).bind push)
  | alu op =>
    cases he
    exact (op.describes_run hm hsp).return next
  | storeAt | copy | callAt | ret | retWord | retLong => cases he

theorem Cpu.Counted.countCell_eq {c : Cpu} (h : c.Counted) : c.countCell = c.fp + 4 :=
  toLong_of_lt (h.trans_le c.memory.layout.total_le_space)

/-- The address of a local is found as long as the count of the locals can be read. -/
theorem Cpu.needs_localAddr_counted (c : Cpu) (k : Nat) :
    Needs c.Counted (Frame.localAddr k) c (c.localCell k) c := by
  have base : Needs c.Counted Frame.localBase c (back c.fp (c.memory.word (c.fp + 4))) c :=
    Needs.of_get (needs_read _).bind_pure
  have address : Needs c.Counted (Frame.localAddr k) c _ c := base.bind_pure
  constructor
  case run_eq =>
    intro h
    rw [address.run_eq h, localCell, h.countCell_eq]
  case holds => exact address.holds

theorem Cpu.needs_localAddr {c : Cpu} (hfp : c.fp + 4 < 0x1000000) (k : Nat) :
    Needs (c.countCell < c.memory.layout.total) (Frame.localAddr k) c (c.localCell k) c :=
  (needs_localAddr_counted c k).iff (by rw [Counted, countCell, toLong_of_lt hfp])

theorem WordOp.describes_run {op : WordOp} {k : Nat} {e : StackEffect} {c : Cpu}
    (he : (Instruction.word op k).stackEffect? = some e) (hm : c.memory.Masked)
    (hsp : c.sp < 0x1000000) (hfp : c.fp + 4 < 0x1000000) : e.Describes c (op.run k) := by
  have address : Needs (c.countCell < c.memory.layout.total) (Frame.localAddr k) (c.drop 0)
      (c.localCell k) (c.drop 0) := needs_localAddr (c := c.drop 0) hfp k
  cases op with
  | push =>
    cases he
    have push := pushes_pushAt (w := .word) (v := k) rfl (c.drop 0)
    exact StackEffect.describes_of rfl trivial
      (needs_without_pop hsp (push.needs (Width.wordList_split .word _)))
  | loadLocal w =>
    cases he
    have push := needs_load (c := c.drop 0) (w := w) hm (c.localCell k)
      fun v vs h => pushes_pushAt h _
    refine StackEffect.describes_of_loading (a := ()) trivial ?_
    exact (needs_without_pop hsp (address.bind push)).iff
      (and_congr_right' (by rw [List.forall_mem_cons, and_assoc]; rfl))
  | addrLocal =>
    cases he
    have push := (pushes_pushAt (w := .long) (v := c.localCell k) rfl (c.drop 0)).needs
      (Width.wordList_split .long _)
    refine StackEffect.describes_of_loading (a := ()) trivial ?_
    exact (needs_without_pop hsp (address.bind push)).iff
      (and_congr_right' (by rw [List.forall_mem_singleton]; rfl))
  | storeLocal => cases he

theorem LongOp.describes_run {op : LongOp} {v : Nat} {e : StackEffect} {c : Cpu}
    (he : (Instruction.long op v).stackEffect? = some e) (hm : c.memory.Masked)
    (hsp : c.sp < 0x1000000) (next : Nat) : e.Describes c (op.run next v) := by
  cases op with
  | push =>
    cases he
    have push := (pushes_pushAt (w := .long) (v := v) rfl (c.drop 0)).return next
    exact StackEffect.describes_of rfl trivial
      (needs_without_pop hsp (push.needs (Width.wordList_split .long _)))
  | load w =>
    cases he
    have push := needs_load (c := c.drop 0) (w := w) hm v
      fun v vs h => (pushes_pushAt h _).return next
    exact StackEffect.describes_of_loading trivial (needs_without_pop hsp push)
  | store | call => cases he

/-- Every instruction that has a row is described by it. -/
theorem Instruction.describes_run {i : Instruction} {e : StackEffect} {c : Cpu}
    (he : i.stackEffect? = some e) (hm : c.memory.Masked) (hsp : c.sp < 0x1000000)
    (hfp : c.fp + 4 < 0x1000000) (next : Nat) : e.Describes c (i.run next) := by
  cases i with
  | system op => cases he
  | plain op => exact op.describes_run he hm hsp next
  | word op k => exact (op.describes_run he hm hsp hfp).return next
  | long op v => exact op.describes_run he hm hsp next
  | jump j =>
    cases he
    exact ⟨_, j.needs_run hsp next⟩

theorem AluOp.wordList_results {c : Cpu} (op : AluOp) (hm : c.memory.Masked) :
    WordList op.stackEffect.pushes (op.stackEffect.results (op.stackEffect.operands c)) := by
  have words (k : Nat) : WordList k (c.top k) := wordList_top hm k
  cases op with
  | binary op w | unary op w => exact Width.wordList_split w _
  | wideMul => exact Width.wordList_split .long _
  | widen => exact (words 1).cons (by decide)
  | widenSigned =>
    refine (words 1).cons ?_
    split <;> decide
  | narrow => exact WordList.drop (j := 1) (words 2)

/-- There are as many results as the row says. -/
theorem Instruction.wordList_results {i : Instruction} {e : StackEffect} {c : Cpu}
    (he : i.stackEffect? = some e) (hm : c.memory.Masked) :
    WordList e.pushes (e.results (e.operands c)) := by
  have words (k : Nat) : WordList k (c.top k) := wordList_top hm k
  have loaded (w : Width) (a : Nat) : WordList w.words ((w.cells a).map c.memory.word) :=
    Width.length_cells (w := w) a ▸ Memory.wordList_map hm _
  cases i with
  | system => cases he
  | jump j =>
    cases he
    cases j <;> exact WordList.nil
  | word op k =>
    cases op with
    | push =>
      cases he
      exact Width.wordList_split .word _
    | loadLocal w =>
      cases he
      exact loaded w _
    | addrLocal =>
      cases he
      exact Width.wordList_split .long _
    | storeLocal => cases he
  | long op v =>
    cases op with
    | push =>
      cases he
      exact Width.wordList_split .long _
    | load w =>
      cases he
      exact loaded w _
    | store | call => cases he
  | plain op =>
    cases op with
    | pop =>
      cases he
      exact WordList.nil
    | dup =>
      cases he
      exact (words _).append (words _)
    | swap w =>
      cases he
      exact (words (w.words + w.words)).drop.append (words (w.words + w.words)).take
    | dupSecond =>
      cases he
      exact (words 2).append (WordList.take (j := 1) (k := 1) (words 2))
    | loadAt w =>
      cases he
      exact loaded w _
    | alu op =>
      cases he
      exact op.wordList_results hm
    | storeAt | copy | callAt | ret | retWord | retLong => cases he

theorem AluOp.pushes_le (op : AluOp) : op.stackEffect.pushes ≤ 4 := by
  have words (w : Width) : w.words ≤ 4 := by cases w <;> decide
  cases op with
  | binary op w | unary op w => exact words w
  | wideMul | widen | widenSigned | narrow => decide

theorem Instruction.pushes_le {i : Instruction} {e : StackEffect} (he : i.stackEffect? = some e) :
    e.pushes ≤ 4 := by
  have words (w : Width) : w.words ≤ 4 := by cases w <;> decide
  have twice (w : Width) : w.words + w.words ≤ 4 := by cases w <;> decide
  have jumps (j : Jump) : j.stackEffect.pushes ≤ 4 := by cases j <;> exact Nat.zero_le 4
  unfold stackEffect? at he
  split at he <;> cases he
  all_goals first
    | exact words _
    | exact twice _
    | exact AluOp.pushes_le _
    | exact jumps _
    | exact Nat.le_of_ble_eq_true rfl

theorem Instruction.ne_system {i : Instruction} {e : StackEffect} (he : i.stackEffect? = some e)
    (op : SystemOp) : i ≠ .system op := by
  rintro rfl
  cases he

structure StackEffect.Done (e : StackEffect) (c d : Cpu) : Prop where
  sp_eq : d.sp = toLong (back c.sp e.pops + e.pushes)
  results_eq : d.memory.wordsFrom (back c.sp e.pops + 1) e.pushes = e.results (e.operands c)
  fp_eq : d.fp = c.fp
  carry_eq : d.carry = e.carry (e.operands c)
  agree : Memory.Agree (fun a => ∀ j < e.pushes, a ≠ toLong (back c.sp e.pops + 1 + j))
    c.memory d.memory

section Executes
variable {i : Instruction} {e : StackEffect} {m m' : Machine} (he : i.stackEffect? = some e)
  (hm : m.memory.Masked) (hsp : m.sp < 0x1000000) (hfp : m.fp + 4 < 0x1000000)
include he hm hsp hfp

/-- An instruction with a row pushes the results of its row, once the operands have been popped. -/
theorem Instruction.pushed_of_executes (run : m.Executes i m') :
    Pushed (e.results (e.operands m.toCpu))
      { m.toCpu.drop e.pops with carry := e.carry (e.operands m.toCpu) } m'.toCpu := by
  have words := wordList_results he hm
  have few : e.pushes ≤ 0x1000000 := (pushes_le he).trans (by decide)
  obtain ⟨pc, described⟩ := describes_run he hm hsp hfp (toLong (m.pc + i.size))
  have hr := run.runs (ne_system he)
  have allowed := described.holds _ _ hr
  rw [(described.eq_of_ok hr).2]
  exact pushed_pushing (drop_sp_lt e.pops m.toCpu) (words.length_eq.trans_le few)
    (words.length_eq.symm ▸ allowed.pushable)

theorem Instruction.executes_iff_allowed : (∃ m', m.Executes i m') ↔ e.Allowed m.toCpu := by
  obtain ⟨pc, described⟩ := describes_run he hm hsp hfp (toLong (m.pc + i.size))
  exact (Machine.executes_iff (ne_system he)).trans described.ok_iff

end Executes

/-- An instruction of the table succeeds exactly where its operands are inside memory, its results
can be written and no divisor is zero; and then it does what the table says. -/
theorem instructions_follow_the_table {i : Instruction} {e : StackEffect} {m : Machine}
    (he : i.stackEffect? = some e) (hm : m.memory.Masked) (hsp : m.sp < 0x1000000)
    (hfp : m.fp + 4 < 0x1000000) :
    ((∃ m', m.Executes i m') ↔ e.Allowed m.toCpu) ∧
      ∀ m', m.Executes i m' → e.Done m.toCpu m'.toCpu := by
  refine ⟨Instruction.executes_iff_allowed he hm hsp hfp, fun m' run => ?_⟩
  have pushed := Instruction.pushed_of_executes he hm hsp hfp run
  have words := Instruction.wordList_results he hm
  have hlen := words.length_eq
  constructor
  case sp_eq => exact hlen ▸ pushed.sp_eq
  case results_eq => exact pushed.wordsFrom words
  case fp_eq => exact pushed.fp_eq
  case carry_eq => exact pushed.carry_eq
  case agree => exact hlen ▸ pushed.agree

/-- The two words at the bottom of memory are divided, and the remainder takes their place; longs
cannot be divided there, as one of them would lie outside memory. -/
theorem remainder_follows_the_table :
    let m := ((Operation.applyAll [.reset 16, .write 0 7, .write 1 2]
      (Machine.new ⟨16, 0, 0, 16, by decide⟩)).after (.plain (.pop .long))).after (.plain (.pop .word))
    (∃ m', m.Executes (.plain (.alu (.binary .mod .word))) m' ∧ m'.sp = 0 ∧
      m'.memory.wordsFrom 0 1 = [1]) ∧
      ¬ ∃ m', m.Executes (.plain (.alu (.binary .mod .long))) m' := by
  intro m
  have start : WellFormed ⟨16, 0, 0, 16, by decide⟩ (Operation.applyAll
      [.reset 16, .write 0 7, .write 1 2] (Machine.new ⟨16, 0, 0, 16, by decide⟩)).toCpu :=
    (WellFormed.new _).applyAll _
  have formed : WellFormed ⟨16, 0, 0, 16, by decide⟩ m.toCpu :=
    wellFormed_of_executes (wellFormed_of_executes start
      (Machine.executes_after (i := .plain (.pop .long)) (by decide +kernel)))
      (Machine.executes_after (i := .plain (.pop .word)) (by decide +kernel))
  have hfp : m.fp + 4 < 0x1000000 := by decide +kernel
  constructor
  · obtain ⟨succeeds, done⟩ := instructions_follow_the_table
      (i := .plain (.alu (.binary .mod .word))) rfl formed.masked formed.sp_lt hfp
    obtain ⟨m', run⟩ := succeeds.2 ⟨by decide +kernel, fun a ha => absurd ha List.not_mem_nil,
      fun _ => by decide +kernel, by decide +kernel⟩
    have sp : m'.sp = 0 := (done m' run).sp_eq.trans (by decide +kernel)
    have results : m'.memory.wordsFrom (back m.sp 2 + 1) 1 = [1] :=
      (done m' run).results_eq.trans (by decide +kernel)
    have bottom : toLong (back m.sp 2 + 1) = toLong 0 := by decide +kernel
    exact ⟨m', run, sp, Memory.wordsFrom_congr _ bottom 1 ▸ results⟩
  · obtain ⟨succeeds, -⟩ := instructions_follow_the_table
      (i := .plain (.alu (.binary .mod .long))) rfl formed.masked formed.sp_lt hfp
    exact fun run => absurd (succeeds.1 run).poppable (by decide +kernel)

end TwelveBit
