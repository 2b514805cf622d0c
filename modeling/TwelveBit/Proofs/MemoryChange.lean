import TwelveBit.Memory
import TwelveBit.Proofs.Keeps
/-!
How memory changes. Whatever runs on the machine, and whatever hosts write, stores words one at a
time below the program memory; loading stores them in it. A relation between memories is kept by
all of these as soon as it allows for a single store.
-/
namespace TwelveBit.Memory

def AllowsWriting (R : Memory → Memory → Prop) : Prop :=
  ∀ (m : Memory) a v, a < m.layout.romBase → (v < 0x1000 ∨ ∃ b, v = m.word b) → R m (m.set a v)

def AllowsFilling (R : Memory → Memory → Prop) : Prop :=
  ∀ (m : Memory) a v, m.layout.romBase ≤ a → v < 0x1000 → R m (m.set a v)

variable {R : Memory → Memory → Prop}

theorem AllowsWriting.put (h : AllowsWriting R) {m : Memory} {a : Nat} (v : Nat)
    (ha : m.refusal? a = none) : R m (m.put a v) :=
  h m a (toWord v) ((m.refusal?_eq_none_iff a).1 ha) (Or.inl (toWord_lt v))

section Preorder
variable [IsPreorder Memory R]

theorem AllowsWriting.copyUp (h : AllowsWriting R) {len src dst : Nat} {m : Memory}
    (hd : dst + len ≤ m.layout.romBase) : R m (copyUp len src dst m) := by
  induction len generalizing src dst m with
  | zero => exact Std.Refl.refl m
  | succ len ih =>
    have first : R m (m.set dst (m.word src)) := h m dst _ (by omega) (Or.inr ⟨src, rfl⟩)
    exact IsTrans.trans _ _ _ first (ih (by rw [layout_set]; omega))

theorem AllowsWriting.zeroBelow (h : AllowsWriting R) {a : Nat} {m : Memory}
    (ha : a ≤ m.layout.romBase) : R m (zeroBelow a m) := by
  induction a generalizing m with
  | zero => exact Std.Refl.refl m
  | succ a ih =>
    have first : R m (m.set a 0) := h m a 0 (by omega) (Or.inl (by decide))
    exact IsTrans.trans _ _ _ first (ih (by rw [layout_set]; omega))

theorem AllowsWriting.clearWritable (h : AllowsWriting R) (m : Memory) : R m m.clearWritable :=
  h.zeroBelow (Nat.le_refl _)

theorem AllowsWriting.write (h : AllowsWriting R) (a v : Nat) : Keeps R (write a v) := by
  intro m
  rw [run_write]
  cases hr : m.refusal? a with
  | some f => exact Std.Refl.refl m
  | none => exact h.put v hr

/-- Both words are checked before either is stored. -/
theorem AllowsWriting.writeLong (h : AllowsWriting R) (a v : Nat) : Keeps R (writeLong a v) := by
  intro m
  rw [run_writeLong]
  cases hr : (m.refusal? a).or (m.refusal? (next a)) with
  | some f => exact Std.Refl.refl m
  | none =>
    obtain ⟨h₁, h₂⟩ := Option.or_eq_none_iff.1 hr
    exact IsTrans.trans _ _ _ (h.put _ h₁) (h.put (m := m.put a (high v)) _ h₂)

theorem copyRefusal?_eq_none {m : Memory} {src dst len : Nat}
    (h : m.copyRefusal? src dst len = none) : len = 0 ∨ dst + len ≤ m.layout.romBase := by
  by_cases h0 : len = 0
  · exact Or.inl h0
  · right
    unfold copyRefusal? at h
    rw [if_neg h0] at h
    split at h
    · cases h
    · split at h
      · cases h
      · have hl := (m.refusal?_eq_none_iff _).1 (Option.or_eq_none_iff.1 h).2
        omega

/-- Only the ends of the destination are checked; what lies between them is writable too. -/
theorem AllowsWriting.copy (h : AllowsWriting R) (src dst len : Nat) :
    Keeps R (copy src dst len) := by
  intro m
  rw [run_copy]
  cases hr : m.copyRefusal? src dst len with
  | some f => exact Std.Refl.refl m
  | none =>
    obtain rfl | hd := copyRefusal?_eq_none hr
    · exact Std.Refl.refl m
    · exact h.copyUp hd

theorem AllowsFilling.putAll (h : AllowsFilling R) (vs : List Nat) {a : Nat} {m : Memory}
    (ha : m.layout.romBase ≤ a) : R m (putAll vs a m) := by
  induction vs generalizing a m with
  | nil => exact Std.Refl.refl m
  | cons v vs ih =>
    have first : R m (m.put a v) := h m a _ ha (toWord_lt v)
    exact IsTrans.trans _ _ _ first (ih (by rw [layout_put]; omega))

theorem AllowsFilling.loadRom (h : AllowsFilling R) (offset : Int) (vs : List Nat) :
    Keeps R (loadRom offset vs) := by
  intro m
  rw [run_loadRom]
  split
  · exact h.putAll vs (Nat.le_add_right _ _)
  · exact Std.Refl.refl m

end Preorder

structure Agree (P : Nat → Prop) (m n : Memory) : Prop where
  layout_eq : n.layout = m.layout
  word_eq : ∀ a, P a → n.word a = m.word a

namespace Agree
variable {P Q : Nat → Prop} {m n k : Memory}

theorem refl (P : Nat → Prop) (m : Memory) : Agree P m m := ⟨rfl, fun _ _ => rfl⟩

theorem trans (h : Agree P m n) (h' : Agree P n k) : Agree P m k :=
  ⟨h'.layout_eq.trans h.layout_eq, fun a ha => (h'.word_eq a ha).trans (h.word_eq a ha)⟩

theorem mono (h : Agree P m n) (hq : ∀ a, Q a → P a) : Agree Q m n :=
  ⟨h.layout_eq, fun a ha => h.word_eq a (hq a ha)⟩

theorem set (a v : Nat) (h : ¬ P a) : Agree P m (m.set a v) := by
  refine ⟨rfl, fun b hb => ?_⟩
  rw [word_set, if_neg]
  rintro ⟨rfl, -⟩
  exact h hb

end Agree

/-- Filling memory leaves the words in front of the row and behind it alone. -/
theorem agree_putAll (vs : List Nat) (a : Nat) (m : Memory) :
    Agree (fun b => b < a ∨ a + vs.length ≤ b) m (putAll vs a m) := by
  induction vs generalizing a m with
  | nil => exact Agree.refl _ m
  | cons v vs ih =>
    rw [List.length_cons]
    have first : Agree (fun b => b < a ∨ a + (vs.length + 1) ≤ b) m (m.put a v) :=
      Agree.set a _ (by omega)
    exact first.trans ((ih (a + 1) (m.put a v)).mono fun b hb => by omega)

theorem word_putAll {vs : List Nat} {a : Nat} {m : Memory} (hfit : a + vs.length ≤ m.layout.total)
    {i v : Nat} (h : vs[i]? = some v) : (putAll vs a m).word (a + i) = toWord v := by
  induction vs generalizing a m i with
  | nil => cases h
  | cons w vs ih =>
    rw [List.length_cons] at hfit
    cases i with
    | zero =>
      obtain rfl : w = v := Option.some.inj h
      -- the words that follow leave the first one alone
      have hkept := (agree_putAll vs (a + 1) (m.put a w)).word_eq a (Or.inl (Nat.lt_succ_self a))
      rw [Nat.add_zero, putAll, hkept, word_put, if_pos ⟨rfl, by omega⟩]
    | succ i =>
      have hrest := ih (a := a + 1) (m := m.put a w) (by rw [layout_put]; omega) h
      rwa [Nat.add_assoc, Nat.add_comm 1 i] at hrest

def Masked (m : Memory) : Prop := ∀ a, m.word a < 0x1000

theorem masked_zero (l : Layout) : (zero l).Masked := by
  intro a
  rw [word_zero]
  decide

theorem Masked.getElem_lt {m : Memory} (h : m.Masked) {i : Nat} (hi : i < m.words.size) :
    m.words[i] < 0x1000 := Array.getElem_eq_getD (h := hi) 0 ▸ h i

theorem Masked.set {m : Memory} (h : m.Masked) (a : Nat) {v : Nat}
    (hv : v < 0x1000 ∨ ∃ b, v = m.word b) : (m.set a v).Masked := by
  intro b
  rw [word_set]
  split
  · obtain hv | ⟨c, rfl⟩ := hv
    · exact hv
    · exact h c
  · exact h b

end TwelveBit.Memory
