import TwelveBit.Proofs.Chronicle
import TwelveBit.Proofs.StepOutcome
/-!
Runs with more fuel. More fuel takes a run further, and a run that has ended stays as it is. A
machine pauses only where a host asks for it.
-/
namespace TwelveBit
variable {σ α β : Type}

namespace Machine

section
variable (h : Host σ) (note : Machine → σ → σ)

theorem runOn_add (n d : Nat) (m : Machine) (s : σ) :
    runOn h note (n + d) m s =
      match runOn h note n m s with
      | (none, m, s) => runOn h note d m s
      | ended => ended := by
  induction n generalizing m s with
  | zero => simp only [Nat.zero_add, runOn]
  | succ n ih =>
    simp only [Nat.succ_add, runOn]
    rcases m.step h s with ⟨stop, m', s'⟩
    cases stop with
    | none => exact ih m' s'
    | some stop =>
      cases stop with
      | exit e =>
        cases e with
        | paused pc => exact ih m' (note m' s')
        | halted | stopped => rfl
      | trap | blocked => rfl

theorem run_add (n d : Nat) (m : Machine) (s : σ) :
    run h (n + d) m s =
      match run h n m s with
      | (none, m, s) => run h d m s
      | ended => ended := by
  induction n generalizing m s with
  | zero => simp only [Nat.zero_add, run]
  | succ n ih =>
    simp only [Nat.succ_add, run]
    rcases m.step h s with ⟨stop, m', s'⟩
    cases stop with
    | none => exact ih m' s'
    | some stop => rfl

variable {h note} {n k : Nat} {m : Machine} {s : σ} {stop stop' : Stop}

theorem runOn_of_ended (he : (runOn h note n m s).1 = some stop) (hle : n ≤ k) :
    runOn h note k m s = runOn h note n m s := by
  obtain ⟨d, rfl⟩ := Nat.exists_eq_add_of_le hle
  rw [runOn_add]
  rcases hr : runOn h note n m s with ⟨r, m', s'⟩
  rw [hr] at he
  cases he
  rfl

theorem run_of_ended (he : (run h n m s).1 = some stop) (hle : n ≤ k) :
    run h k m s = run h n m s := by
  obtain ⟨d, rfl⟩ := Nat.exists_eq_add_of_le hle
  rw [run_add]
  rcases hr : run h n m s with ⟨r, m', s'⟩
  rw [hr] at he
  cases he
  rfl

/-- A run has one end. -/
theorem run_unique (hn : (run h n m s).1 = some stop) (hk : (run h k m s).1 = some stop') :
    run h n m s = run h k m s := by
  rcases Nat.le_total n k with hle | hle
  · exact (run_of_ended hn hle).symm
  · exact run_of_ended hk hle

end

theorem runOn_grows (h : Host σ) {n k : Nat} (hle : n ≤ k) (m : Machine) (p : σ × List Happening) :
    (runOn h.chronicled notePause n m p).2.2.2 <+: (runOn h.chronicled notePause k m p).2.2.2 := by
  obtain ⟨d, rfl⟩ := Nat.exists_eq_add_of_le hle
  rw [runOn_add]
  rcases runOn h.chronicled notePause n m p with ⟨stop, m', s, es⟩
  cases stop with
  | some stop => exact List.prefix_rfl
  | none =>
    show es <+: (runOn h.chronicled notePause d m' (s, es)).2.2.2
    rw [runOn_chronicled]
    exact List.prefix_append es _

/-- A machine pauses where it stands, and only if a host asks for it. -/
theorem step_paused {h : Host σ} {m k : Machine} {s t : σ} {a : Nat}
    (hs : m.step h s = (some (.exit (.paused a)), k, t)) :
    a = k.pc ∧ ∃ m' s', (h.beforeFetch m' s').1 = .pause := by
  have hr := stepped h m s
  rw [hs] at hr
  cases hr with
  | ended hp =>
    have hp' := polled h m s
    rw [hp] at hp'
    cases hp'
  | paused hp hb => exact ⟨rfl, _, _, congrArg Prod.fst hb⟩
  | ran _ _ _ he => exact ((Settles.finishing h _).rests (congrArg Prod.fst he)).elim

end Machine
end TwelveBit
