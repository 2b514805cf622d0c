import TwelveBit.Step
import TwelveBit.Proofs.Keeps
/-!
The parts of a step. A step polls the line, asks the hosts, and carries an instruction out. A
relation is kept by the last two as soon as it allows for the few things they are made of.
-/
namespace TwelveBit
variable {σ : Type}

def Host.approach (h : Host σ) (a : Access) (l : Line) (s : σ) : Line × σ :=
  let (acts, s) := h.meanwhile a l s
  (l.performAll acts, s)

def Instruction.switch? : Instruction → Option Bool
  | .system .enable => some true
  | .system .disable => some false
  | _ => none

def Event.Inner : Event → Prop
  | .fetched _ | .halted | .abandoned => True
  | .closed | .taken _ | .delivered _ _ | .executed _ => False

namespace Machine

def carryOut (h : Host σ) : Stepping σ Unit := do
  let i ← attempt (Effect.ofExcept (← ask fun m => Instruction.fetched m.fetch))
  tell h (.fetched i)
  execute h i

theorem stepping_eq (h : Host σ) :
    stepping h = poll h >>= fun _ => consult h >>= fun _ => carryOut h := by
  simp only [stepping, fetchNext, carryOut, bind_assoc, pure_bind]

def receive (h : Host σ) (irq : Interrupt) : Stepping σ Unit := do
  tell h (.taken irq)
  match irq.source.vector? (← ask (·.memory.layout)) with
  | none => throw (.exit .stopped)
  | some vector => deliver h irq vector

def finishing (h : Host σ) : Instruction → Stepping σ Unit
  | .system op => system h op >>= retire h (.system op)
  | i => retire h i none

theorem execute_eq (h : Host σ) (i : Instruction) :
    execute h i = ask (fun m => toLong (m.pc + i.size)) >>= fun next =>
      attempt (i.run next) >>= fun pc => update (fun m => { m with pc := pc }) >>= fun _ =>
        finishing h i := by
  cases i <;> rfl

def complete (h : Host σ) (i : Instruction) : Stepping σ Unit := do
  update fun m => { m with instructions := m.instructions + 1 }
  tell h (.executed i)

def conclude : Option Exit → Stepping σ Unit
  | none => pure ()
  | some e => throw (.exit e)

theorem retire_eq (h : Host σ) (i : Instruction) (exit : Option Exit) :
    retire h i exit = complete h i >>= fun _ => conclude exit := by
  cases exit with
  | none => rfl
  | some e => rfl

theorem run_access {α : Type} (h : Host σ) (a : Access) (f : Line → α × Line) (m : Machine)
    (s : σ) :
    (access h a f).run (m, s) =
      .ok (f (h.approach a m.line s).1).1
        ({ m with line := (f (h.approach a m.line s).1).2 }, (h.approach a m.line s).2) := rfl

theorem leftBehind_attempt {α : Type} (x : Effect α) (m : Machine) (s : σ) :
    leftBehind ((attempt x).run (m, s)) = ({ m with toCpu := leftBehind (x.run m.toCpu) }, s) := by
  rw [run_attempt]
  cases x.run m.toCpu <;> rfl

theorem leftBehind_consult (h : Host σ) (m : Machine) (s : σ) :
    leftBehind ((consult h).run (m, s)) =
      (m.perform (h.beforeFetch m s).2.1, (h.beforeFetch m s).2.2) := by
  rw [run_consult]
  rcases h.beforeFetch m s with ⟨flow, acts, t⟩
  cases flow <;> rfl

theorem run_poll_of_closed {h : Host σ} {m : Machine} {s t : σ} {l : Line}
    (hl : h.approach .closed m.line s = (l, t)) (hc : l.closed = true) :
    (poll h).run (m, s) =
      .error (.exit .stopped) ({ m with line := l }, h.observe { m with line := l } .closed t) := by
  simp only [poll, EStateM.run_bind, run_access, hl, hc, if_true, run_tell]
  rfl

theorem run_poll_of_open {h : Host σ} {m : Machine} {s t u : σ} {l k : Line}
    (hl : h.approach .closed m.line s = (l, t)) (hc : l.closed = false)
    (hk : h.approach .take l t = (k, u)) :
    (poll h).run (m, s) =
      match k.pending with
      | none => .ok () ({ m with line := k }, u)
      | some irq => (receive h irq).run ({ m with line := k.take.2 }, u) := by
  simp only [poll, EStateM.run_bind, run_access, hl, hc, hk, Bool.false_eq_true, if_false,
    Line.take]
  cases hp : k.pending with
  | some irq => rfl
  | none =>
    have hsame : { k with pending := none } = k := by rw [← hp]
    simp only [hsame, EStateM.run_pure]

structure AllowsFinishing (h : Host σ) (R : Machine × σ → Machine × σ → Prop) : Prop where
  tell : ∀ e, e.Inner → Keeps R (tell h e)
  halted : ∀ m s b, R (m, s) ({ m with halted := b }, s)
  look : ∀ {α : Type} a (f : Line → α), Keeps R (access h a fun l => (f l, l))
  complete : ∀ i, i.switch? = none → Keeps R (complete h i)
  switch : ∀ i on, i.switch? = some on →
    Keeps R (access h .setEnabled (fun l => ((), l.setEnabled on)) >>= fun _ =>
      Machine.complete h i)

structure Allows (h : Host σ) (R : Machine × σ → Machine × σ → Prop) : Prop
    extends AllowsFinishing h R where
  consult : Keeps R (consult h)
  instruction : ∀ next i, Keeps R (attempt (Instruction.run next i))
  pc : ∀ m s a, R (m, s) ({ m with pc := a }, s)

section
variable {R : Machine × σ → Machine × σ → Prop}

theorem keeps_update {f : Machine → Machine} (h : ∀ m s, R (m, s) (f m, s)) :
    Keeps R (update f) := fun (m, s) => h m s

theorem keeps_ask [Std.Refl R] {α : Type} (f : Machine → α) : Keeps R (ask f) :=
  fun p => Std.Refl.refl p

/-- What is known without running on the processor changes nothing when it is tried. -/
theorem keeps_attempt_ofExcept [Std.Refl R] {α : Type} (r : Except Fault α) :
    Keeps R (attempt (Effect.ofExcept r)) := by
  cases r with
  | ok a => exact fun p => Std.Refl.refl p
  | error f => exact fun p => Std.Refl.refl p

theorem keeps_conclude [Std.Refl R] (exit : Option Exit) : Keeps R (conclude exit) := by
  cases exit with
  | none => exact Keeps.of_pure _
  | some e => exact Keeps.of_throw _

end

namespace AllowsFinishing
variable {h : Host σ} {R : Machine × σ → Machine × σ → Prop} [IsPreorder (Machine × σ) R]
  (hR : AllowsFinishing h R)
include hR

theorem retire {i : Instruction} (hi : i.switch? = none) (exit : Option Exit) :
    Keeps R (Machine.retire h i exit) := by
  rw [retire_eq]
  exact (hR.complete i hi).bind fun _ => keeps_conclude exit

theorem sleep : Keeps R (Machine.sleep h) := by
  refine (hR.look .wait id).bind fun line => ?_
  cases line.awake with
  | false => exact Keeps.of_throw_bind _ _
  | true =>
    refine Keeps.bind (keeps_update fun m s => hR.halted m s false) fun _ => ?_
    cases line.pending with
    | none => exact (hR.tell .abandoned trivial).bind fun _ => Keeps.of_pure _
    | some irq => exact Keeps.of_pure _

theorem halt : Keeps R (Machine.halt h) := by
  refine Keeps.bind (keeps_update fun m s => hR.halted m s true) fun _ =>
    (hR.look .enabled Line.enabled).bind fun enabled => ?_
  cases enabled with
  | true => exact hR.sleep
  | false => exact (hR.tell .halted trivial).bind fun _ => Keeps.of_pure _

/-- Nothing comes between the access of such an instruction to the line and its completion. -/
theorem switching {i : Instruction} {on : Bool} (hi : i.switch? = some on) :
    Keeps R ((access h .setEnabled (fun l => ((), l.setEnabled on)) >>= fun _ => pure none) >>=
      Machine.retire h i) := by
  simp only [bind_assoc, pure_bind, retire_eq]
  rw [← bind_assoc]
  exact (hR.switch i on hi).bind fun _ => keeps_conclude none

theorem finishing (i : Instruction) : Keeps R (Machine.finishing h i) := by
  cases i with
  | plain | word | long | jump => exact hR.retire rfl none
  | system op =>
    cases op with
    | nop => exact (Keeps.of_pure _).bind fun exit => hR.retire rfl exit
    | halt => exact hR.halt.bind fun exit => hR.retire rfl exit
    | enable | disable => exact hR.switching rfl

end AllowsFinishing

namespace Allows
variable {h : Host σ} {R : Machine × σ → Machine × σ → Prop} [IsPreorder (Machine × σ) R]
  (hR : Allows h R)
include hR

theorem execute (i : Instruction) : Keeps R (Machine.execute h i) := by
  rw [execute_eq]
  exact (keeps_ask _).bind fun next => (hR.instruction next i).bind fun pc =>
    Keeps.bind (keeps_update fun m s => hR.pc m s pc) fun _ => hR.finishing i

theorem carryOut : Keeps R (Machine.carryOut h) :=
  (keeps_ask _).bind fun _ => (keeps_attempt_ofExcept _).bind fun _ =>
    (hR.tell (.fetched _) trivial).bind fun _ => hR.execute _

theorem rest : Keeps R (Machine.consult h >>= fun _ => Machine.carryOut h) :=
  hR.consult.bind fun _ => hR.carryOut

theorem stepping (hpoll : Keeps R (poll h)) : Keeps R (Machine.stepping h) := by
  rw [stepping_eq]
  exact hpoll.bind fun _ => hR.rest

end Allows

theorem settle_of_ok {α : Type} {x : Stepping σ α} {f : α → Stepping σ Unit} {m k : Machine}
    {s t : σ} {a : α} (hx : x.run (m, s) = .ok a (k, t)) :
    settle (x >>= f) m s = settle (f a) k t := by
  have hr : (x >>= f).run (m, s) = (f a).run (k, t) := by rw [EStateM.run_bind, hx]
  unfold settle
  rw [show (x >>= f) (m, s) = f a (k, t) from hr]

theorem settle_of_error {α : Type} {x : Stepping σ α} {f : α → Stepping σ Unit} {m k : Machine}
    {s t : σ} {e : Stop} (hx : x.run (m, s) = .error e (k, t)) :
    settle (x >>= f) m s = (some e, k, t) := by
  have hr : (x >>= f).run (m, s) = .error e (k, t) := by rw [EStateM.run_bind, hx]
  unfold settle
  rw [show (x >>= f) (m, s) = _ from hr]

theorem step_eq (h : Host σ) (m : Machine) (s : σ) :
    m.step h s = settle (poll h >>= fun _ => consult h >>= fun _ => carryOut h) m s := by
  rw [step, stepping_eq]

theorem settle_snd (x : Stepping σ Unit) (m : Machine) (s : σ) :
    (settle x m s).2 = leftBehind (x.run (m, s)) := by
  unfold settle EStateM.run
  cases x (m, s) <;> rfl

theorem Allows.step {h : Host σ} {R : Machine × σ → Machine × σ → Prop}
    [IsPreorder (Machine × σ) R] (hR : Allows h R) (hpoll : Keeps R (poll h)) (m : Machine)
    (s : σ) : R (m, s) (m.step h s).2 := by
  rw [Machine.step, settle_snd]
  exact hR.stepping hpoll (m, s)

theorem AllowsFinishing.wake {h : Host σ} {R : Machine × σ → Machine × σ → Prop}
    [IsPreorder (Machine × σ) R] (hR : AllowsFinishing h R) (m : Machine) (s : σ) :
    R (m, s) (m.wake h s).2 := by
  rw [Machine.wake, settle_snd]
  exact hR.sleep.bind (fun exit => hR.retire rfl exit) (m, s)

end Machine
end TwelveBit
