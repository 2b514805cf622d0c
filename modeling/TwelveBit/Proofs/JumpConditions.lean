import Mathlib.Data.Nat.Digits.Defs
import TwelveBit.Proofs.StackEffects
/-!
Conditions of jumps. What a jump pops is a number, read with or without a sign, and the condition
is a comparison of this number. A jump that is not taken pops the same words as one that is.
-/
namespace TwelveBit

namespace Cpu

def CanPop : Nat → Cpu → Prop
  | 0, _ => True
  | k + 1, c => c.sp < c.memory.layout.total ∧ CanPop k (c.drop 1)

def popped : Nat → Cpu → Cpu
  | 0, c => c
  | k + 1, c => popped k (c.drop 1)

def topWords : Nat → Cpu → List Nat
  | 0, _ => []
  | k + 1, c => topWords k (c.drop 1) ++ [c.memory.word c.sp]

def topNat (w : Width) (c : Cpu) : Nat := Nat.ofDigits 0x1000 (c.topWords w.words).reverse

def topInt (w : Width) (c : Cpu) : Int := (BitVec.ofNat w.bits (c.topNat w)).toInt

variable {c : Cpu} {w : Width}

theorem popped_succ (k : Nat) (c : Cpu) : c.popped (k + 1) = c.drop (k + 1) := by
  induction k generalizing c with
  | zero => rfl
  | succ k ih =>
    rw [popped, ih, drop_drop, Nat.add_comm]

theorem wordList_topWords (hm : c.memory.Masked) (k : Nat) : WordList k (c.topWords k) := by
  induction k generalizing c with
  | zero => exact WordList.nil
  | succ k ih => exact (ih (c := c.drop 1) hm).append (WordList.nil.cons (hm _))

theorem needs_popAt_canPop (w : Width) (c : Cpu) :
    Needs (CanPop w.words c) (popAt w) c (w.value (c.topWords w.words)) (c.popped w.words) := by
  cases w with
  | word => exact (needs_pop_mapped c).iff (and_iff_left trivial).symm
  | long =>
    have h : Needs _ popLong c _ _ :=
      (needs_pop_mapped c).bind (needs_pop_mapped (c.drop 1)).bind_pure
    exact h.iff (and_congr_right' (and_iff_left trivial).symm)

end Cpu

namespace Width
variable {w : Width} {vs : List Nat}

theorem value_eq_ofDigits (h : WordList w.words vs) :
    w.value vs = Nat.ofDigits 0x1000 vs.reverse := by
  have hlt := h.lt
  match w, vs, h.length_eq with
  | word, [v], _ => exact Nat.ofDigits_singleton.symm
  | long, [h, l], _ =>
    simp only [value, join, toWord_of_lt (hlt h (by simp)), toWord_of_lt (hlt l (by simp)),
      List.reverse_cons, List.reverse_nil, List.nil_append, List.cons_append, Nat.ofDigits_cons,
      Nat.ofDigits_nil]
    omega

theorem signed_eq_toInt (v : Nat) : w.signed v = (BitVec.ofNat w.bits v).toInt := by
  rw [BitVec.toInt_ofNat', Int.bmod]
  cases w <;> simp only [signed, size, signBit, bits] <;> omega

end Width

def Condition.Taken (c : Cpu) : Condition → Prop
  | always => True
  | zero w => c.topNat w = 0
  | nonzero w => c.topNat w ≠ 0
  | carry => c.carry = true
  | noCarry => c.carry = false
  | positive w => 0 < c.topInt w
  | negative w => c.topInt w < 0
  | nonnegative w => 0 ≤ c.topInt w
  | nonpositive w => c.topInt w ≤ 0
  | equal => (c.drop 1).topNat .word = c.topNat .word
  | different => (c.drop 1).topNat .word ≠ c.topNat .word

def Condition.opposite? : Condition → Option Condition
  | always => none
  | zero w => some (nonzero w)
  | nonzero w => some (zero w)
  | carry => some noCarry
  | noCarry => some carry
  | positive w => some (nonpositive w)
  | negative w => some (nonnegative w)
  | nonnegative w => some (negative w)
  | nonpositive w => some (positive w)
  | equal => some different
  | different => some equal

def Jump.words (j : Jump) : Nat := j.stackEffect.pops

def Jump.GoesTo (m : Machine) (pc : Nat) : Jump → Prop
  | absolute condition target =>
    (condition.Taken m.toCpu → pc = target) ∧
      (¬ condition.Taken m.toCpu → pc = toLong (m.pc + 4))
  | relative => (pc : Int) = (m.pc + 2 + m.toCpu.topInt .word) % 0x1000000

theorem Cpu.value_topWords {c : Cpu} (hm : c.memory.Masked) (w : Width) :
    w.value (c.topWords w.words) = c.topNat w :=
  Width.value_eq_ofDigits (wordList_topWords hm _)

theorem Cpu.signed_value_topWords {c : Cpu} (hm : c.memory.Masked) (w : Width) :
    w.signed (w.value (c.topWords w.words)) = c.topInt w := by
  rw [value_topWords hm, Width.signed_eq_toInt, topInt]

theorem Cpu.topNat_word (c : Cpu) : c.topNat .word = c.memory.word c.sp := Nat.ofDigits_singleton

namespace Condition
open Cpu
variable {c : Cpu}

theorem taken_iff_not {condition opposite : Condition} (h : condition.opposite? = some opposite)
    (c : Cpu) : condition.Taken c ↔ ¬ opposite.Taken c := by
  cases condition with
  | always => cases h
  | zero | equal =>
    cases h
    exact not_not.symm
  | nonzero | different =>
    cases h
    exact Iff.rfl
  | carry | noCarry =>
    cases h
    simp only [Taken, Bool.not_eq_true, Bool.not_eq_false]
  | positive | negative | nonnegative | nonpositive =>
    cases h
    simp only [Taken, not_lt, not_le]

/-- The words of a condition are popped, and what it comes to is told by the numbers they make. -/
theorem needs_holds_taken (hm : c.memory.Masked) (condition : Condition) :
    ∃ b, Needs (c.CanPop condition.words) condition.holds c b (c.popped condition.words) ∧
      (b = true ↔ condition.Taken c) := by
  have nat (w : Width) := Cpu.value_topWords hm w
  have int (w : Width) := Cpu.signed_value_topWords hm w
  have pop (w : Width) := needs_popAt_canPop w c
  -- the lower of two words lies on the stack that the upper one leaves
  have twice {f : Nat → Nat → Bool} : Needs (c.CanPop 2)
      (Cpu.pop >>= fun b => Cpu.pop >>= fun a => pure (f a b)) c
      (f ((c.drop 1).topNat .word) (c.topNat .word)) (c.popped 2) := by
    rw [topNat_word, topNat_word]
    have h : Needs _ (Cpu.pop >>= fun b => Cpu.pop >>= fun a => pure (f a b)) c _ _ :=
      (needs_pop_mapped c).bind (needs_pop_mapped (c.drop 1)).bind_pure
    exact h.iff (and_congr_right' (and_iff_left trivial).symm)
  cases condition with
  | always => exact ⟨true, Needs.of_pure true, iff_of_true rfl trivial⟩
  | carry => exact ⟨c.carry, Needs.of_get (Needs.of_pure c.carry), Iff.rfl⟩
  | noCarry => exact ⟨!c.carry, Needs.of_get (Needs.of_pure (!c.carry)), iff_of_eq (Bool.not_eq_true' _)⟩
  | zero w => exact ⟨_, (pop w).bind_pure, by rw [nat, decide_eq_true_iff]; rfl⟩
  | nonzero w => exact ⟨_, (pop w).bind_pure, by rw [nat, decide_eq_true_iff]; rfl⟩
  | positive w => exact ⟨_, (pop w).bind_pure, by rw [int, decide_eq_true_iff]; rfl⟩
  | negative w => exact ⟨_, (pop w).bind_pure, by rw [int, decide_eq_true_iff]; rfl⟩
  | nonnegative w => exact ⟨_, (pop w).bind_pure, by rw [int, decide_eq_true_iff]; rfl⟩
  | nonpositive w => exact ⟨_, (pop w).bind_pure, by rw [int, decide_eq_true_iff]; rfl⟩
  | equal | different => exact ⟨_, twice, decide_eq_true_iff⟩

end Condition

/-- A jump pops its words, taken or not, and then the condition decides. -/
theorem Jump.needs_run_goesTo {m : Machine} (hm : m.memory.Masked) (j : Jump) :
    ∃ pc, Needs (m.toCpu.CanPop j.words) (j.run (toLong (m.pc + (Instruction.jump j).size)))
      m.toCpu pc (m.toCpu.popped j.words) ∧ j.GoesTo m pc := by
  cases j with
  | absolute condition target =>
    obtain ⟨taken, needs, decides⟩ := condition.needs_holds_taken hm
    refine ⟨_, needs.bind_pure, fun h => ?_, fun h => ?_⟩
    · exact if_pos (decides.2 h)
    · exact if_neg (h ∘ decides.1)
  | relative =>
    refine ⟨_, (Cpu.needs_popAt_canPop .word m.toCpu).bind_pure, ?_⟩
    rw [Cpu.signed_value_topWords hm]
    simp only [GoesTo, Instruction.size, toLong]
    omega

theorem Jump.of_executes {m m' : Machine} {j : Jump} (hm : m.memory.Masked)
    (run : m.Executes (.jump j) m') : m'.toCpu = m.toCpu.popped j.words ∧ j.GoesTo m m'.pc := by
  obtain ⟨pc, needs, goes⟩ := j.needs_run_goesTo hm
  obtain ⟨hpc, hcpu⟩ := needs.eq_of_ok (run.runs fun op => Instruction.noConfusion)
  exact ⟨hcpu, hpc ▸ goes⟩

theorem Cpu.popped_eq (k : Nat) (c : Cpu) :
    c.popped k = { c with sp := if k = 0 then c.sp else back c.sp k } := by
  cases k with
  | zero => rfl
  | succ k => exact popped_succ k c

/-- A jump with its operands on the stack always goes well. It drops them, goes by the number they
make or by the carry, and changes nothing else; of two opposite jumps one is taken. -/
theorem jumps_decide_by_condition {m : Machine} {j : Jump} (hm : m.memory.Masked)
    (hpop : m.toCpu.CanPop j.words) :
    (∃ m', m.Executes (.jump j) m') ∧
      (∀ m', m.Executes (.jump j) m' →
        m'.sp = (if j.words = 0 then m.sp else back m.sp j.words) ∧
        m'.memory = m.memory ∧ m'.fp = m.fp ∧ m'.carry = m.carry ∧ j.GoesTo m m'.pc) ∧
      ∀ condition opposite, Condition.opposite? condition = some opposite →
        (condition.Taken m.toCpu ↔ ¬ opposite.Taken m.toCpu) ∧
        ∀ target m₁ m₂, m.Executes (.jump (.absolute condition target)) m₁ →
          m.Executes (.jump (.absolute opposite target)) m₂ →
          (m₁.pc = target ∧ m₂.pc = toLong (m.pc + 4)) ∨
            (m₁.pc = toLong (m.pc + 4) ∧ m₂.pc = target) := by
  refine ⟨?_, fun m' run => ?_, fun condition opposite hop => ?_⟩
  · obtain ⟨pc, needs, -⟩ := j.needs_run_goesTo hm
    exact (Machine.executes_iff fun op => Instruction.noConfusion).2 (needs.ok_iff.2 hpop)
  · obtain ⟨hcpu, goes⟩ := Jump.of_executes hm run
    rw [Cpu.popped_eq] at hcpu
    rw [hcpu]
    exact ⟨rfl, rfl, rfl, rfl, goes⟩
  · have opposed := Condition.taken_iff_not hop m.toCpu
    refine ⟨opposed, fun target m₁ m₂ run₁ run₂ => ?_⟩
    obtain ⟨-, taken₁, passed₁⟩ := Jump.of_executes hm run₁
    obtain ⟨-, taken₂, passed₂⟩ := Jump.of_executes hm run₂
    by_cases h : condition.Taken m.toCpu
    · exact Or.inl ⟨taken₁ h, passed₂ (opposed.1 h)⟩
    · exact Or.inr ⟨passed₁ h, taken₂ (not_not.1 fun h' => h (opposed.2 h'))⟩

/-- The least long is negative, and is popped; so is the word from which a relative jump goes back
over the start of memory. -/
theorem least_long_is_negative :
    let start := (Machine.new ⟨32, 0, 0, 16, by decide⟩).reset 0
    let m := start.after (.long .push 0x800000)
    let k := start.after (.word .push 0x800)
    (∃ m', m.Executes (.jump (.absolute (.negative .long) 9)) m' ∧ m'.pc = 9 ∧ m'.sp = 4) ∧
      ∃ k', k.Executes (.jump .relative) k' ∧ k'.pc = 0xFFF804 ∧ k'.sp = 4 := by
  intro start m k
  have formed : WellFormed ⟨32, 0, 0, 16, by decide⟩ start.toCpu :=
    (WellFormed.new _).applyAll [.reset 0]
  have pushes : start.Executes (.long .push 0x800000) m := Machine.executes_after (by decide +kernel)
  have pushes' : start.Executes (.word .push 0x800) k := Machine.executes_after (by decide +kernel)
  constructor
  · obtain ⟨⟨m', run⟩, goes, -⟩ := jumps_decide_by_condition
      (j := .absolute (.negative .long) 9) (wellFormed_of_executes formed pushes).masked
      ⟨by decide +kernel, by decide +kernel, trivial⟩
    obtain ⟨hsp, -, -, -, taken, -⟩ := goes m' run
    have negative : m.toCpu.topInt .long < 0 := by decide +kernel
    exact ⟨m', run, taken negative, hsp.trans (by decide +kernel)⟩
  · obtain ⟨⟨k', run⟩, goes, -⟩ := jumps_decide_by_condition (j := .relative)
      (wellFormed_of_executes formed pushes').masked ⟨by decide +kernel, trivial⟩
    obtain ⟨hsp, -, -, -, back⟩ := goes k' run
    have place : (k.pc + 2 + k.toCpu.topInt .word) % 0x1000000 = 0xFFF804 := by decide +kernel
    have hpc : (k'.pc : Int) = 0xFFF804 := Eq.trans back place
    exact ⟨k', run, by omega, hsp.trans (by decide +kernel)⟩

end TwelveBit
