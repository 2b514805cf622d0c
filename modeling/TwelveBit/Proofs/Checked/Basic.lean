/-!
Checked numbers. Numbers of a fixed width can run over, and a row of values has an end; where that
is not looked after, a program breaks off. Checked operations say where. A checked effect may break
off as well as fail; one that never does is as good as the effect without the checks.
-/
namespace TwelveBit

/-- Why a program breaks off. No caller gets this as a result. -/
inductive Panic where
  | overflow
  | outOfBounds
  | divisionByZero
  deriving DecidableEq, Repr

namespace Checked
variable {α β ε σ : Type}

def size8 : Nat := 0x100

def size32 : Nat := 0x100000000

def size64 : Nat := 0x10000000000000000

def fit (size n : Nat) : Except Panic Nat := if n < size then .ok n else .error .overflow

def fitSigned (n : Int) : Except Panic Int :=
  if -0x8000000000000000 ≤ n ∧ n < 0x8000000000000000 then .ok n else .error .overflow

def add (size a b : Nat) : Except Panic Nat := fit size (a + b)

def sub (a b : Nat) : Except Panic Nat := if b ≤ a then .ok (a - b) else .error .overflow

def mul (size a b : Nat) : Except Panic Nat := fit size (a * b)

def div (a b : Nat) : Except Panic Nat := if b = 0 then .error .divisionByZero else .ok (a / b)

def rem (a b : Nat) : Except Panic Nat := if b = 0 then .error .divisionByZero else .ok (a % b)

def shl (a k : Nat) : Except Panic Nat :=
  if k < 32 then .ok (a * Nat.pow 2 k % size32) else .error .overflow

def shr (bits a k : Nat) : Except Panic Nat :=
  if k < bits then .ok (a / Nat.pow 2 k) else .error .overflow

def sar (a : Int) (k : Nat) : Except Panic Int :=
  if k < 32 then .ok (a / (Nat.pow 2 k : Nat)) else .error .overflow

theorem add_of_lt {size a b : Nat} (h : a + b < size) : add size a b = .ok (a + b) := if_pos h

theorem sub_of_le {a b : Nat} (h : b ≤ a) : sub a b = .ok (a - b) := if_pos h

theorem mul_of_lt {size a b : Nat} (h : a * b < size) : mul size a b = .ok (a * b) := if_pos h

theorem div_of_ne {a b : Nat} (h : b ≠ 0) : div a b = .ok (a / b) := if_neg h

theorem rem_of_ne {a b : Nat} (h : b ≠ 0) : rem a b = .ok (a % b) := if_neg h

theorem shl_of_lt {k : Nat} (h : k < 32) (a : Nat) : shl a k = .ok (a * Nat.pow 2 k % size32) :=
  if_pos h

theorem shr_of_lt {bits k : Nat} (h : k < bits) (a : Nat) :
    shr bits a k = .ok (a / Nat.pow 2 k) := if_pos h

theorem sar_of_lt {k : Nat} (h : k < 32) (a : Int) : sar a k = .ok (a / (Nat.pow 2 k : Nat)) :=
  if_pos h

theorem fitSigned_of_lt {n : Int} (h : -0x8000000000000000 ≤ n ∧ n < 0x8000000000000000) :
    fitSigned n = .ok n := if_pos h

def bound (size i : Nat) : Except Panic Unit := if i < size then .ok () else .error .outOfBounds

def index (xs : Array α) (i : Nat) : Except Panic α :=
  if h : i < xs.size then .ok xs[i] else .error .outOfBounds

def span (size start len : Nat) : Except Panic Unit :=
  if start ≤ size ∧ len ≤ size - start then .ok () else .error .outOfBounds

theorem bound_of_lt {size i : Nat} (h : i < size) : bound size i = .ok () := if_pos h

theorem index_of_lt {xs : Array α} {i : Nat} (h : i < xs.size) (d : α) :
    index xs i = .ok (xs.getD i d) := by
  rw [index, dif_pos h, Array.getElem_eq_getD]

theorem span_of_le {size start len : Nat} (h : start + len ≤ size) : span size start len = .ok () :=
  if_pos (by omega)

theorem ok_bind (a : α) (f : α → Except Panic β) : (Except.ok a >>= f) = f a := rfl

/-- Where no value lets the function break off, it goes through a whole row. -/
theorem mapM_of_ok {f : α → Except Panic β} {g : α → β} {xs : List α}
    (h : ∀ x ∈ xs, f x = .ok (g x)) : xs.mapM f = .ok (xs.map g) := by
  induction xs with
  | nil => rfl
  | cons x xs ih =>
    have rest := ih fun y hy => h y (List.mem_cons_of_mem x hy)
    rw [List.mapM_cons, h x List.mem_cons_self, ok_bind, rest]
    rfl

end Checked

def Guarded (ε σ α : Type) : Type := σ → Except Panic (EStateM.Result ε σ α)

namespace Guarded
variable {α β ε σ : Type}

def run (x : Guarded ε σ α) (s : σ) : Except Panic (EStateM.Result ε σ α) := x s

theorem ext_run {x y : Guarded ε σ α} (h : ∀ s, x.run s = y.run s) : x = y := funext h

def resume (f : α → Guarded ε σ β) :
    Except Panic (EStateM.Result ε σ α) → Except Panic (EStateM.Result ε σ β)
  | .ok (.ok a s) => (f a).run s
  | .ok (.error e s) => .ok (.error e s)
  | .error p => .error p

instance : Monad (Guarded ε σ) where
  pure a := fun s => .ok (.ok a s)
  bind x f := fun s => resume f (x.run s)

instance : MonadLift (Except Panic) (Guarded ε σ) where
  monadLift c := fun s =>
    match c with
    | .ok a => .ok (.ok a s)
    | .error p => .error p

def free (x : EStateM ε σ α) : Guarded ε σ α := fun s => .ok (x.run s)

theorem run_free (x : EStateM ε σ α) (s : σ) : (free x).run s = .ok (x.run s) := rfl

theorem run_bind (x : Guarded ε σ α) (f : α → Guarded ε σ β) (s : σ) :
    (x >>= f).run s = resume f (x.run s) := rfl

theorem resume_ok (f : α → Guarded ε σ β) (a : α) (s : σ) :
    resume f (.ok (.ok a s)) = (f a).run s := rfl

theorem pure_eq_free (a : α) : (pure a : Guarded ε σ α) = free (pure a) := rfl

theorem lift_ok (a : α) :
    (liftM (Except.ok a : Except Panic α) : Guarded ε σ α) = free (pure a) := rfl

theorem free_pure_bind (a : α) (f : α → Guarded ε σ β) : (free (pure a) >>= f) = f a := rfl

/-- Two effects that never break off make one that never does. -/
theorem free_bind_free (x : EStateM ε σ α) (f : α → EStateM ε σ β) :
    (free x >>= fun a => free (f a)) = free (x >>= f) := by
  apply ext_run
  intro s
  rw [run_bind, run_free, run_free, EStateM.run_bind]
  cases x.run s <;> rfl

theorem free_bind_of {x : EStateM ε σ α} {f : α → Guarded ε σ β} {g : α → EStateM ε σ β}
    (h : ∀ a, f a = free (g a)) : (free x >>= f) = free (x >>= g) := by
  rw [funext h, free_bind_free]

end Guarded
end TwelveBit
