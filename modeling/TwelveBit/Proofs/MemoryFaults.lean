import TwelveBit.Proofs.Failures
import TwelveBit.Proofs.Regions
/-!
Faults of memory. What is asked of a memory may be any number; where it fails, the fault names one
of the addresses that were asked for, and rightly so. Only the end of a source may be a number that
no address of 32 bits can be. Such a copy names the start of the source, whatever lies there.
-/
namespace TwelveBit

def Fault.address? : Fault → Option Nat
  | .romWrite a | .outOfRange a => some a
  | .unknownOpcode _ | .unknownJumpMode _ | .divideByZero => none

namespace Memory
variable {m n : Memory} {f : Fault} {a v src dst len : Nat}

theorem address?_of_refusal? (h : m.refusal? a = some f) : f.address? = some a := by
  unfold refusal? at h
  split at h
  · cases h
    rfl
  · split at h
    · cases h
      rfl
    · cases h

theorem address?_of_or {b : Nat} (h : (m.refusal? a).or (m.refusal? b) = some f) :
    f.address? ∈ [some a, some b] := by
  obtain h | ⟨-, h⟩ := Option.or_eq_some_iff.1 h <;> simp [address?_of_refusal? h]

theorem address?_of_copyRefusal? (hend : src + (len - 1) < 0x100000000)
    (h : m.copyRefusal? src dst len = some f) :
    f.address? ∈ [some (src + (len - 1)), some dst, some (dst + (len - 1))] := by
  unfold copyRefusal? at h
  split at h
  · cases h
  · rw [if_neg (Nat.not_le.2 hend)] at h
    split at h
    · cases h
      exact List.mem_cons_self
    · exact List.mem_cons_of_mem _ (address?_of_or h)

theorem copyRefusal?_of_end_beyond (hlen : len ≠ 0) (hend : 0x100000000 ≤ src + (len - 1)) :
    m.copyRefusal? src dst len = some (.outOfRange src) := by
  rw [copyRefusal?, if_neg hlen, if_pos hend]

/-- A fault of memory is about an address that was asked for, and this address lies behind all
memory or else in program memory that was to be written. The exception are copies from a source
whose end no 32 bits can name: they do nothing, and name the start of the source. -/
theorem memory_faults_name_the_address_at_fault (m : Memory) :
    (∀ a f, m.read a = .error f → f.Misses m.layout ∧ f.address? = some a) ∧
      (∀ a v f n, (write a v).run m = .error f n → f.Misses m.layout ∧ f.address? = some a) ∧
      (∀ a v f n, (writeLong a v).run m = .error f n →
        f.Misses m.layout ∧ f.address? ∈ [some a, some (next a)]) ∧
      ∀ src dst len,
        (∀ f n, src + (len - 1) < 0x100000000 → (copy src dst len).run m = .error f n →
          f.Misses m.layout ∧
            f.address? ∈ [some (src + (len - 1)), some dst, some (dst + (len - 1))]) ∧
        (len ≠ 0 → 0x100000000 ≤ src + (len - 1) →
          (copy src dst len).run m = .error (.outOfRange src) m) := by
  refine ⟨fun a f h => ?_, fun a v f n h => ?_, fun a v f n h => ?_, fun src dst len =>
    ⟨fun f n hend h => ?_, fun hlen hend => ?_⟩⟩
  · unfold read at h
    split at h
    · cases h
    · next beyond =>
      cases h
      exact ⟨Nat.not_lt.1 beyond, rfl⟩
  · rw [run_write] at h
    have refused := (refused_eq_error_iff.1 h).1
    exact ⟨misses_of_refusal? refused, address?_of_refusal? refused⟩
  · rw [run_writeLong] at h
    have refused := (refused_eq_error_iff.1 h).1
    exact ⟨misses_of_or refused, address?_of_or refused⟩
  · rw [run_copy] at h
    have refused := (refused_eq_error_iff.1 h).1
    exact ⟨misses_of_copyRefusal? hend refused, address?_of_copyRefusal? hend refused⟩
  · rw [run_copy, copyRefusal?_of_end_beyond hlen hend]

/-- What is named is the word behind the end of memory, or the first word of program memory that a
long or a block would run into. -/
theorem faults_name_the_word_behind :
    let m := zero ⟨16, 4, 8, 8, by decide⟩
    (m.read 36 = .error (.outOfRange 36) ∧ (copy 35 0 2).run m = .error (.outOfRange 36) m ∧
        (Fault.outOfRange 36).Misses m.layout) ∧
      (writeLong 27 0xABCDEF).run m = .error (.romWrite 28) m ∧
        (copy 0 25 4).run m = .error (.romWrite 28) m ∧ (Fault.romWrite 28).Misses m.layout := by
  intro m
  obtain ⟨-, -, written, copied⟩ := memory_faults_name_the_address_at_fault m
  have beyond : (copy 35 0 2).run m = .error (.outOfRange 36) m := rfl
  have program : (writeLong 27 0xABCDEF).run m = .error (.romWrite 28) m := rfl
  exact ⟨⟨rfl, beyond, ((copied 35 0 2).1 _ _ (by decide) beyond).1⟩, program, rfl,
    (written _ _ _ _ program).1⟩

/-- A copy of as many words as 32 bits can count names the third word of memory, which is there. -/
theorem copy_blames_a_word_of_memory :
    let m := zero ⟨16, 4, 8, 8, by decide⟩
    (copy 2 0 0xFFFFFFFF).run m = .error (.outOfRange 2) m ∧
      ¬ (Fault.outOfRange 2).Misses m.layout ∧ m.read 2 = .ok 0 := by
  intro m
  have inside : 2 < m.layout.total := by decide
  exact ⟨rfl, Nat.not_le.2 inside, rfl⟩

end Memory
end TwelveBit
