import Mathlib.Order.Defs.Unbundled
/-!
Effects seen from outside. An effect that can fail leaves a state behind in either case. A
relation between the state before and the state left behind is kept by an effect as soon as all
its parts keep it, provided that it allows for doing nothing and for going on.
-/
namespace TwelveBit
variable {ε σ α β : Type}

def leftBehind : EStateM.Result ε σ α → σ
  | .ok _ s => s
  | .error _ s => s

/-- Whatever the effect comes to, the relation holds between the state it found and the state it
left behind. -/
def Keeps (R : σ → σ → Prop) (x : EStateM ε σ α) : Prop := ∀ s, R s (leftBehind (x.run s))

def Yields (p : α → Prop) (x : EStateM ε σ α) : Prop := ∀ s a s', x.run s = .ok a s' → p a

def Fails (q : σ → ε → σ → Prop) (x : EStateM ε σ α) : Prop :=
  ∀ s e s', x.run s = .error e s' → q s e s'

/-- Both parts of an effect that succeeded have done so. -/
theorem ok_of_bind {x : EStateM ε σ α} {f : α → EStateM ε σ β} {s s' : σ} {b : β}
    (h : (x >>= f).run s = .ok b s') : ∃ a t, x.run s = .ok a t ∧ (f a).run t = .ok b s' := by
  rw [EStateM.run_bind] at h
  cases hx : x.run s with
  | ok a t =>
    simp only [hx] at h
    exact ⟨a, t, rfl, h⟩
  | error e t => simp only [hx, reduceCtorEq] at h

theorem ok_of_bind_pure {x : EStateM ε σ α} {f : α → β} {s s' : σ} {b : β}
    (h : (x >>= fun a => pure (f a)).run s = .ok b s') : ∃ a, x.run s = .ok a s' ∧ b = f a := by
  obtain ⟨a, t, hx, hp⟩ := ok_of_bind h
  cases hp
  exact ⟨a, hx, rfl⟩

/-- Where an effect of two parts failed, one of them did. -/
theorem error_of_bind {x : EStateM ε σ α} {f : α → EStateM ε σ β} {s s' : σ} {e : ε}
    (h : (x >>= f).run s = .error e s') :
    x.run s = .error e s' ∨ ∃ a t, x.run s = .ok a t ∧ (f a).run t = .error e s' := by
  rw [EStateM.run_bind] at h
  cases hx : x.run s with
  | ok a t =>
    simp only [hx] at h
    exact Or.inr ⟨a, t, rfl, h⟩
  | error e' t =>
    simp only [hx] at h
    cases h
    exact Or.inl rfl

namespace Yields

theorem of_pure {p : α → Prop} {a : α} (h : p a) : Yields p (pure a : EStateM ε σ α) := by
  intro s b s' hr
  rw [EStateM.run_pure] at hr
  cases hr
  exact h

theorem of_throw {p : α → Prop} (e : ε) : Yields p (throw e : EStateM ε σ α) := by
  intro s a s' hr
  cases hr

theorem of_bind {p : β → Prop} {x : EStateM ε σ α} {f : α → EStateM ε σ β}
    (h : ∀ a, Yields p (f a)) : Yields p (x >>= f) := by
  intro s b s' hr
  obtain ⟨a, t, -, hr⟩ := ok_of_bind hr
  exact h a t b s' hr

theorem bind {p : α → Prop} {r : β → Prop} {x : EStateM ε σ α} {f : α → EStateM ε σ β}
    (hx : Yields p x) (hf : ∀ a, p a → Yields r (f a)) : Yields r (x >>= f) := by
  intro s b s' hr
  obtain ⟨a, t, hx', hr⟩ := ok_of_bind hr
  exact hf a (hx s a t hx') t b s' hr

end Yields

namespace Keeps
variable {R : σ → σ → Prop}

theorem of_pure [Std.Refl R] (a : α) : Keeps R (pure a : EStateM ε σ α) := by
  intro s
  rw [EStateM.run_pure]
  exact Std.Refl.refl s

theorem of_get [Std.Refl R] : Keeps R (get : EStateM ε σ σ) := by
  intro s
  rw [EStateM.run_get]
  exact Std.Refl.refl s

theorem of_throw [Std.Refl R] (e : ε) : Keeps R (throw e : EStateM ε σ α) :=
  fun s => Std.Refl.refl s

theorem of_throw_bind [Std.Refl R] (e : ε) (f : α → EStateM ε σ β) :
    Keeps R (throw e >>= f) := fun s => Std.Refl.refl s

theorem of_modify {f : σ → σ} (h : ∀ s, R s (f s)) : Keeps R (modify f : EStateM ε σ PUnit) := by
  intro s
  rw [EStateM.run_modify]
  exact h s

/-- The second part may rely on what the results of the first part have in common. -/
theorem bind_of [IsTrans σ R] {x : EStateM ε σ α} {f : α → EStateM ε σ β} {p : α → Prop}
    (hx : Keeps R x) (hp : Yields p x) (hf : ∀ a, p a → Keeps R (f a)) : Keeps R (x >>= f) := by
  intro s
  have h := hx s
  rw [EStateM.run_bind]
  cases hr : x.run s with
  | ok a t =>
    rw [hr] at h
    exact IsTrans.trans s t _ h (hf a (hp s a t hr) t)
  | error e t =>
    rw [hr] at h
    exact h

theorem bind [IsTrans σ R] {x : EStateM ε σ α} {f : α → EStateM ε σ β}
    (hx : Keeps R x) (hf : ∀ a, Keeps R (f a)) : Keeps R (x >>= f) :=
  hx.bind_of (p := fun _ => True) (fun _ _ _ _ => trivial) fun a _ => hf a

theorem of_ok {x : EStateM ε σ α} {s s' : σ} {a : α} (hx : Keeps R x)
    (h : x.run s = .ok a s') : R s s' := by
  have hs := hx s
  rwa [h] at hs

theorem fails {x : EStateM ε σ α} (hx : Keeps R x) : Fails (fun s _ s' => R s s') x := by
  intro s e s' h
  have hs := hx s
  rwa [h] at hs

end Keeps

namespace Fails
variable {q : σ → ε → σ → Prop}

/-- An effect that always succeeds. -/
theorem of_ok {x : EStateM ε σ α} (h : ∀ s, ∃ a s', x.run s = .ok a s') : Fails q x := by
  intro s e s' he
  obtain ⟨a, t, ha⟩ := h s
  rw [ha] at he
  cases he

theorem of_pure (a : α) : Fails q (pure a : EStateM ε σ α) :=
  of_ok fun _ => ⟨_, _, EStateM.run_pure ..⟩

theorem of_get : Fails q (get : EStateM ε σ σ) := of_ok fun _ => ⟨_, _, EStateM.run_get ..⟩

theorem of_modify (f : σ → σ) : Fails q (modify f : EStateM ε σ PUnit) :=
  of_ok fun _ => ⟨_, _, EStateM.run_modify ..⟩

/-- What holds of a failure of the second part still holds when looked at from before the first
one, which has only done what `R` allows for. -/
theorem bind_of {R : σ → σ → Prop} {x : EStateM ε σ α} {f : α → EStateM ε σ β} {p : α → Prop}
    (back : ∀ {s t e s'}, R s t → q t e s' → q s e s') (hk : Keeps R x) (hp : Yields p x)
    (hx : Fails q x) (hf : ∀ a, p a → Fails q (f a)) : Fails q (x >>= f) := by
  intro s e s' h
  obtain h | ⟨a, t, ha, h⟩ := error_of_bind h
  · exact hx s e s' h
  · exact back (hk.of_ok ha) (hf a (hp s a t ha) t e s' h)

theorem bind {R : σ → σ → Prop} {x : EStateM ε σ α} {f : α → EStateM ε σ β}
    (back : ∀ {s t e s'}, R s t → q t e s' → q s e s') (hk : Keeps R x) (hx : Fails q x)
    (hf : ∀ a, Fails q (f a)) : Fails q (x >>= f) :=
  bind_of (p := fun _ => True) back hk (fun _ _ _ _ => trivial) hx fun a _ => hf a

/-- Only the first part can fail. -/
theorem then_ok {x : EStateM ε σ α} {f : α → EStateM ε σ β} (hx : Fails q x)
    (hf : ∀ a, Fails (fun _ _ _ => False) (f a)) : Fails q (x >>= f) := by
  intro s e s' h
  obtain h | ⟨a, t, -, h⟩ := error_of_bind h
  · exact hx s e s' h
  · exact (hf a t e s' h).elim

end Fails
end TwelveBit
