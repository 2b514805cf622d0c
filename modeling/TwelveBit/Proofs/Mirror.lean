import TwelveBit.Proofs.StepParts
/-!
Hosts that act alike. Where one host knows a part of what another knows and does the same with it,
a machine runs with the one as it runs with the other: the machine and how the run ends are equal,
and what the one host learns is seen through what the other learns.
-/
namespace TwelveBit.Machine
variable {σ τ α β : Type}

def seen (view : τ → σ) :
    EStateM.Result Stop (Machine × τ) α → EStateM.Result Stop (Machine × σ) α
  | .ok a (m, t) => .ok a (m, view t)
  | .error e (m, t) => .error e (m, view t)

def Mirrors (view : τ → σ) (x : Stepping σ α) (y : Stepping τ α) : Prop :=
  ∀ m t, x.run (m, view t) = seen view (y.run (m, t))

structure Echoes (view : τ → σ) (h : Host σ) (g : Host τ) : Prop where
  meanwhile : ∀ a l t,
    h.meanwhile a l (view t) = ((g.meanwhile a l t).1, view (g.meanwhile a l t).2)
  observe : ∀ m e t, h.observe m e (view t) = view (g.observe m e t)

namespace Mirrors
variable {view : τ → σ}

theorem pure (a : α) : Mirrors view (Pure.pure a) (Pure.pure a) := fun _ _ => rfl

theorem throw (e : Stop) :
    Mirrors view (MonadExcept.throw e : Stepping σ α) (MonadExcept.throw e) := fun _ _ => rfl

theorem bind {x : Stepping σ α} {y : Stepping τ α} {f : α → Stepping σ β} {g : α → Stepping τ β}
    (hx : Mirrors view x y) (hf : ∀ a, Mirrors view (f a) (g a)) :
    Mirrors view (x >>= f) (y >>= g) := by
  intro m t
  rw [EStateM.run_bind, EStateM.run_bind, hx m t]
  cases y.run (m, t) with
  | ok a p => exact hf a p.1 p.2
  | error e p => rfl

theorem throw_bind (e : Stop) (f : α → Stepping σ β) (g : α → Stepping τ β) :
    Mirrors view (MonadExcept.throw e >>= f) (MonadExcept.throw e >>= g) := fun _ _ => rfl

theorem ask (f : Machine → α) : Mirrors view (Machine.ask f) (Machine.ask f) := fun _ _ => rfl

theorem update (f : Machine → Machine) : Mirrors view (Machine.update f) (Machine.update f) :=
  fun _ _ => rfl

theorem attempt (x : Effect α) : Mirrors view (Machine.attempt x) (Machine.attempt x) := by
  intro m t
  rw [run_attempt, run_attempt]
  cases x.run m.toCpu <;> rfl

variable {h : Host σ} {g : Host τ}

theorem consult (hb : ∀ m t, h.beforeFetch m (view t) =
      ((g.beforeFetch m t).1, (g.beforeFetch m t).2.1, view (g.beforeFetch m t).2.2)) :
    Mirrors view (Machine.consult h) (Machine.consult g) := by
  intro m t
  rw [run_consult, run_consult, hb]
  rcases g.beforeFetch m t with ⟨flow, acts, u⟩
  cases flow <;> rfl

variable (he : Echoes view h g)
include he

theorem tell (e : Event) : Mirrors view (Machine.tell h e) (Machine.tell g e) := by
  intro m t
  rw [run_tell, run_tell, he.observe]
  rfl

theorem access (a : Access) (f : Line → α × Line) :
    Mirrors view (Machine.access h a f) (Machine.access g a f) := by
  intro m t
  simp only [EStateM.run, Machine.access, he.meanwhile]
  rfl

theorem deliver (irq : Interrupt) (vector : Nat) :
    Mirrors view (Machine.deliver h irq vector) (Machine.deliver g irq vector) :=
  (ask _).bind fun _ => (attempt _).bind fun _ => (update _).bind fun _ => tell he _

theorem poll : Mirrors view (Machine.poll h) (Machine.poll g) := by
  refine (access he _ _).bind fun closed => ?_
  cases closed with
  | true => exact (tell he _).bind fun _ => throw_bind _ _ _
  | false =>
    refine (access he _ _).bind fun pending => ?_
    cases pending with
    | none => exact pure _
    | some irq =>
      refine (tell he _).bind fun _ => (ask _).bind fun l => ?_
      cases irq.source.vector? l with
      | none => exact throw _
      | some vector => exact deliver he irq vector

theorem retire (i : Instruction) (exit : Option Exit) :
    Mirrors view (Machine.retire h i exit) (Machine.retire g i exit) := by
  refine (update _).bind fun _ => (tell he _).bind fun _ => ?_
  cases exit with
  | none => exact pure _
  | some e => exact throw _

theorem sleep : Mirrors view (Machine.sleep h) (Machine.sleep g) := by
  refine (access he _ _).bind fun line => ?_
  cases line.awake with
  | false => exact throw_bind _ _ _
  | true =>
    refine (update _).bind fun _ => ?_
    cases line.pending with
    | none => exact (tell he _).bind fun _ => pure _
    | some irq => exact pure _

theorem halt : Mirrors view (Machine.halt h) (Machine.halt g) := by
  refine (update _).bind fun _ => (access he _ _).bind fun enabled => ?_
  cases enabled with
  | true => exact sleep he
  | false => exact (tell he _).bind fun _ => pure _

theorem system (op : SystemOp) : Mirrors view (Machine.system h op) (Machine.system g op) := by
  cases op with
  | nop => exact pure _
  | halt => exact halt he
  | enable | disable => exact (access he _ _).bind fun _ => pure _

theorem execute (i : Instruction) : Mirrors view (Machine.execute h i) (Machine.execute g i) := by
  refine (ask _).bind fun next => (attempt _).bind fun pc => (update _).bind fun _ => ?_
  cases i with
  | system op => exact (system he op).bind fun exit => retire he _ exit
  | plain | word | long | jump => exact retire he _ none

theorem carryOut : Mirrors view (Machine.carryOut h) (Machine.carryOut g) :=
  (ask _).bind fun _ => (attempt _).bind fun _ => (tell he _).bind fun _ => execute he _

theorem stepping (hc : Mirrors view (Machine.consult h) (Machine.consult g)) :
    Mirrors view (Machine.stepping h) (Machine.stepping g) := by
  rw [stepping_eq, stepping_eq]
  exact (poll he).bind fun _ => hc.bind fun _ => carryOut he

end Mirrors

def shown (view : τ → σ) (r : Option Stop × Machine × τ) : Option Stop × Machine × σ :=
  (r.1, r.2.1, view r.2.2)

/-- The first host acts as the second one does, seen through `view`. -/
structure Follows (view : τ → σ) (h : Host σ) (g : Host τ) : Prop extends Echoes view h g where
  beforeFetch : ∀ m t, h.beforeFetch m (view t) =
    ((g.beforeFetch m t).1, (g.beforeFetch m t).2.1, view (g.beforeFetch m t).2.2)

theorem Mirrors.settle {view : τ → σ} {x : Stepping σ Unit} {y : Stepping τ Unit}
    (hxy : Mirrors view x y) (m : Machine) (t : τ) :
    settle x m (view t) = shown view (settle y m t) := by
  have h := hxy m t
  simp only [EStateM.run] at h
  simp only [Machine.settle, h]
  cases y (m, t) <;> rfl

namespace Follows
variable {view : τ → σ} {h : Host σ} {g : Host τ} (hf : Follows view h g)
include hf

theorem step (m : Machine) (t : τ) : m.step h (view t) = shown view (m.step g t) :=
  (Mirrors.stepping hf.toEchoes (Mirrors.consult hf.beforeFetch)).settle m t

theorem wake (m : Machine) (t : τ) : m.wake h (view t) = shown view (m.wake g t) :=
  ((Mirrors.sleep hf.toEchoes).bind fun exit => Mirrors.retire hf.toEchoes _ exit).settle m t

theorem run (n : Nat) (m : Machine) (t : τ) :
    Machine.run h n m (view t) = shown view (Machine.run g n m t) := by
  induction n generalizing m t with
  | zero => rfl
  | succ n ih =>
    simp only [Machine.run, hf.step]
    rcases m.step g t with ⟨stop, m', t'⟩
    cases stop with
    | none => exact ih m' t'
    | some stop => rfl

theorem runOn {note : Machine → σ → σ} {note' : Machine → τ → τ}
    (hn : ∀ m t, note m (view t) = view (note' m t)) (n : Nat) (m : Machine) (t : τ) :
    Machine.runOn h note n m (view t) = shown view (Machine.runOn g note' n m t) := by
  induction n generalizing m t with
  | zero => rfl
  | succ n ih =>
    simp only [Machine.runOn, hf.step]
    rcases m.step g t with ⟨stop, m', t'⟩
    cases stop with
    | none => exact ih m' t'
    | some stop =>
      cases stop with
      | exit e =>
        cases e with
        | paused pc =>
          simp only [shown, hn]
          exact ih m' (note' m' t')
        | halted | stopped => rfl
      | trap | blocked => rfl

end Follows
end TwelveBit.Machine
