import TwelveBit.Proofs.MemoryChange
/-!
Block copies. A copy goes upwards, word by word, and reads what it has written. So a destination
that begins inside the source takes the words in front of it over and over again; any other one
takes the source as it was.
-/
namespace TwelveBit.Memory

def copySource (src dst i : Nat) : Nat :=
  if src < dst then src + i % (dst - src) else src + i

theorem copySource_of_le {src dst : Nat} (h : dst ≤ src) (i : Nat) :
    copySource src dst i = src + i := if_neg (Nat.not_lt.2 h)

theorem copySource_of_lt {src dst : Nat} (h : src < dst) (i : Nat) :
    copySource src dst i = src + i % (dst - src) := if_pos h

/-- A destination behind the whole source takes it as it is. -/
theorem copySource_of_apart {src dst i : Nat} (h : src + i < dst) :
    copySource src dst i = src + i := by
  rw [copySource_of_lt (by omega), Nat.mod_eq_of_lt (by omega)]

variable {m : Memory} {src dst len : Nat}

/-- A word that has been copied stands for the one it was copied from. -/
theorem word_copySource_succ (hdst : dst < m.layout.total) (i : Nat) :
    (m.set dst (m.word src)).word (copySource (src + 1) (dst + 1) i) =
      m.word (copySource src dst (i + 1)) := by
  obtain hle | hlt := Nat.lt_or_ge src dst |>.symm
  · rw [copySource_of_le (by omega), copySource_of_le hle, word_set, if_neg (by omega),
      Nat.add_assoc, Nat.add_comm 1]
  · have period : dst + 1 - (src + 1) = dst - src := by omega
    have inside : i % (dst - src) < dst - src := Nat.mod_lt _ (by omega)
    rw [copySource_of_lt (by omega), copySource_of_lt hlt, period, word_set,
      ← Nat.mod_add_mod i (dst - src) 1]
    by_cases round : src + 1 + i % (dst - src) = dst
    · have first : i % (dst - src) + 1 = dst - src := by omega
      rw [if_pos ⟨round, hdst⟩, first, Nat.mod_self, Nat.add_zero]
    · have later : i % (dst - src) + 1 < dst - src := by omega
      rw [if_neg fun h => round h.1, Nat.mod_eq_of_lt later, Nat.add_assoc, Nat.add_comm 1]

theorem agree_copyUp : Agree (fun a => a < dst ∨ dst + len ≤ a) m (copyUp len src dst m) := by
  induction len generalizing src dst m with
  | zero => exact Agree.refl _ m
  | succ len ih =>
    have first : Agree (fun a => a < dst ∨ dst + (len + 1) ≤ a) m (m.set dst (m.word src)) :=
      Agree.set _ _ (by omega)
    exact first.trans (ih.mono fun a ha => by omega)

theorem word_copyUp (hdst : dst + len ≤ m.layout.total) {i : Nat} (hi : i < len) :
    (copyUp len src dst m).word (dst + i) = m.word (copySource src dst i) := by
  induction len generalizing src dst m i with
  | zero => exact absurd hi (Nat.not_lt_zero i)
  | succ len ih =>
    have room : dst < m.layout.total := by omega
    cases i with
    | zero =>
      have start : copySource src dst 0 = src := by
        unfold copySource
        rw [Nat.zero_mod, Nat.add_zero, ite_self]
      -- the words that follow do not come back to this one
      have kept : Agree (fun a => a < dst + 1 ∨ dst + 1 + len ≤ a) (m.set dst (m.word src))
          (copyUp len (src + 1) (dst + 1) (m.set dst (m.word src))) := agree_copyUp
      calc
        (copyUp (len + 1) src dst m).word dst = (m.set dst (m.word src)).word dst :=
          kept.word_eq dst (Or.inl (Nat.lt_succ_self dst))
        _ = m.word (copySource src dst 0) := by rw [word_set, if_pos ⟨rfl, room⟩, start]
    | succ i =>
      have place : dst + (i + 1) = dst + 1 + i := by omega
      have rest : dst + 1 + len ≤ (m.set dst (m.word src)).layout.total := by
        rw [layout_set]
        omega
      rw [copyUp, place, ih rest (Nat.lt_of_succ_lt_succ hi), word_copySource_succ room]

/-- The checks of the two ends come to this for the whole blocks. -/
theorem copyRefusal?_eq_none_iff :
    m.copyRefusal? src dst len = none ↔
      len = 0 ∨ src + len ≤ m.layout.total ∧ dst + len ≤ m.layout.romBase := by
  have space := m.layout.total_le_space
  by_cases h0 : len = 0
  · rw [copyRefusal?, if_pos h0]
    exact iff_of_true rfl (Or.inl h0)
  · constructor
    · intro h
      have dest := (copyRefusal?_eq_none h).resolve_left h0
      refine Or.inr ⟨?_, dest⟩
      rw [copyRefusal?, if_neg h0] at h
      split at h
      · cases h
      · split at h
        · cases h
        · omega
    · intro h
      obtain ⟨source, dest⟩ := h.resolve_left h0
      rw [copyRefusal?, if_neg h0, if_neg (by omega), if_neg (by omega),
        (m.refusal?_eq_none_iff dst).2 (by omega), Option.none_or, refusal?_eq_none_iff]
      omega

/-- A copy succeeds exactly where both blocks lie where they may, and then each word of the
destination is one that the source had before; otherwise nothing happens. -/
theorem block_copy_is_exact_and_atomic (m : Memory) (src dst len : Nat) :
    ((∃ n, (copy src dst len).run m = .ok () n) ↔
        len = 0 ∨ src + len ≤ m.layout.total ∧ dst + len ≤ m.layout.romBase) ∧
      (∀ n, (copy src dst len).run m = .ok () n →
        (∀ i < len,
          (dst ≤ src ∨ src + len ≤ dst → n.word (dst + i) = m.word (src + i)) ∧
          (src < dst → dst < src + len →
            n.word (dst + i) = m.word (src + i % (dst - src)))) ∧
        Agree (fun a => a < dst ∨ dst + len ≤ a) m n) ∧
      ∀ f n, (copy src dst len).run m = .error f n → n = m := by
  rw [← copyRefusal?_eq_none_iff, run_copy]
  cases refused : m.copyRefusal? src dst len with
  | some f =>
    refine ⟨iff_of_false (fun ⟨n, h⟩ => ?_) (Option.some_ne_none f), fun n h => ?_,
      fun g n h => ?_⟩
    · cases h
    · cases h
    · cases h
      rfl
  | none =>
    refine ⟨iff_of_true ⟨_, rfl⟩ rfl, fun n h => ?_, fun g n h => ?_⟩
    · cases h
      refine ⟨fun i hi => ?_, agree_copyUp⟩
      have total := m.layout.romBase_le_total
      have fits := (copyRefusal?_eq_none refused).resolve_left (by omega)
      rw [word_copyUp (by omega) hi]
      refine ⟨fun h => ?_, fun h _ => by rw [copySource_of_lt h]⟩
      obtain hle | hle := h
      · rw [copySource_of_le hle]
      · rw [copySource_of_apart (by omega)]
    · cases h

/-- Two words are repeated as far as the copy goes; one that would leave memory does nothing. -/
theorem pair_is_repeated :
    let m := ((zero ⟨8, 0, 0, 0, by decide⟩).put 0 1).put 1 2
    (∃ n, (copy 0 2 5).run m = .ok () n ∧ n.word 5 = 2 ∧ n.word 6 = 1 ∧ n.word 7 = 0) ∧
      ¬ ∃ n, (copy 0 4 5).run m = .ok () n := by
  intro m
  obtain ⟨succeeds, copied, -⟩ := block_copy_is_exact_and_atomic m 0 2 5
  obtain ⟨n, run⟩ := succeeds.2 (by decide)
  obtain ⟨each, kept⟩ := copied n run
  obtain ⟨-, fourth⟩ := each 3 (by decide)
  obtain ⟨-, fifth⟩ := each 4 (by decide)
  refine ⟨⟨n, run, ?_, ?_, ?_⟩, fun h => ?_⟩
  · exact (fourth (by decide) (by decide)).trans (by decide +kernel)
  · exact (fifth (by decide) (by decide)).trans (by decide +kernel)
  · exact (kept.word_eq 7 (by decide)).trans (by decide +kernel)
  · exact absurd ((block_copy_is_exact_and_atomic m 0 4 5).1.1 h) (by decide)

end TwelveBit.Memory
