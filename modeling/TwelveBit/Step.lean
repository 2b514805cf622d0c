import TwelveBit.Host
/-!
Running. A step looks at the line, delivers the pending interrupt, and fetches and executes one
instruction; each of its accesses to the line is one turn, before which the hosts may act. A run
is steps up to the first that ends it.
-/
namespace TwelveBit

inductive Exit where
  | halted
  | stopped
  | paused (pc : Nat)
  deriving DecidableEq, Repr

inductive Stop where
  | exit (e : Exit)
  | trap (t : Trap)
  /-- The machine waits for an interrupt, and no host has anything to say. -/
  | blocked
  deriving DecidableEq, Repr

namespace Machine

abbrev Stepping (σ : Type) := EStateM Stop (Machine × σ)

variable {σ α : Type}

def ask (f : Machine → α) : Stepping σ α := fun (m, s) => .ok (f m) (m, s)

def update (f : Machine → Machine) : Stepping σ Unit := fun (m, s) => .ok () (f m, s)

def tell (h : Host σ) (e : Event) : Stepping σ Unit := fun (m, s) =>
  let s := h.observe m e s
  .ok () (m, s)

def access (h : Host σ) (a : Access) (f : Line → α × Line) : Stepping σ α := fun (m, s) =>
  let (acts, s) := h.meanwhile a m.line s
  let (r, line) := f (m.line.performAll acts)
  .ok r ({ m with line := line }, s)

def attempt (x : Effect α) : Stepping σ α := fun
  | (⟨cpu, pc, halted, line, instructions, interrupts⟩, s) =>
    match x cpu with
    | .ok a cpu => .ok a (⟨cpu, pc, halted, line, instructions, interrupts⟩, s)
    | .error f cpu =>
      .error (.trap ⟨pc, f⟩) (⟨cpu, pc, halted, line, instructions, interrupts⟩, s)

theorem run_attempt (x : Effect α) (m : Machine) (s : σ) :
    (attempt x).run (m, s) =
      match x.run m.toCpu with
      | .ok a c => .ok a ({ m with toCpu := c }, s)
      | .error f c => .error (.trap ⟨m.pc, f⟩) ({ m with toCpu := c }, s) := rfl

theorem run_ask (f : Machine → α) (m : Machine) (s : σ) :
    (ask f).run (m, s) = .ok (f m) (m, s) := rfl

theorem run_update (f : Machine → Machine) (m : Machine) (s : σ) :
    (update f).run (m, s) = .ok () (f m, s) := rfl

theorem run_tell (h : Host σ) (e : Event) (m : Machine) (s : σ) :
    (tell h e).run (m, s) = .ok () (m, h.observe m e s) := rfl

def deliver (h : Host σ) (irq : Interrupt) (vector : Nat) : Stepping σ Unit := do
  let ret ← ask (·.pc)
  attempt (Frame.interrupt irq ret)
  update fun m => { m with pc := vector, interrupts := m.interrupts + 1 }
  tell h (.delivered irq ret)

/-- The counter grows and the program counter moves only when the frame was entered. -/
theorem run_deliver (h : Host σ) (irq : Interrupt) (vector : Nat) (m : Machine) (s : σ) :
    (deliver h irq vector).run (m, s) =
      match (Frame.interrupt irq m.pc).run m.toCpu with
      | .ok () c =>
        let m' := { m with toCpu := c, pc := vector, interrupts := m.interrupts + 1 }
        .ok () (m', h.observe m' (.delivered irq m.pc) s)
      | .error f c => .error (.trap ⟨m.pc, f⟩) ({ m with toCpu := c }, s) := by
  simp only [deliver, EStateM.run_bind, run_ask, run_attempt]
  cases (Frame.interrupt irq m.pc).run m.toCpu <;> simp only [run_update, run_tell]

def poll (h : Host σ) : Stepping σ Unit := do
  if ← access h .closed fun l => (l.closed, l) then
    tell h .closed
    throw (.exit .stopped)
  match ← access h .take Line.take with
  | none => pure ()
  | some irq =>
    tell h (.taken irq)
    match irq.source.vector? (← ask (·.memory.layout)) with
    | none => throw (.exit .stopped)
    | some vector => deliver h irq vector

def consult (h : Host σ) : Stepping σ Unit := fun (m, s) =>
  let (flow, acts, s) := h.beforeFetch m s
  let m := m.perform acts
  match flow with
  | .proceed => .ok () (m, s)
  | .pause => .error (.exit (.paused m.pc)) (m, s)

theorem run_consult (h : Host σ) (m : Machine) (s : σ) :
    (consult h).run (m, s) =
      match h.beforeFetch m s with
      | (.proceed, acts, s) => .ok () (m.perform acts, s)
      | (.pause, acts, s) => .error (.exit (.paused m.pc)) (m.perform acts, s) := by
  rcases hb : h.beforeFetch m s with ⟨flow, acts, t⟩
  simp only [EStateM.run, consult, hb]
  cases flow <;> rfl

def fetchNext (h : Host σ) : Stepping σ Instruction := do
  consult h
  let i ← attempt (Effect.ofExcept (← ask fun m => Instruction.fetched m.fetch))
  tell h (.fetched i)
  return i

def retire (h : Host σ) (i : Instruction) (exit : Option Exit) : Stepping σ Unit := do
  update fun m => { m with instructions := m.instructions + 1 }
  tell h (.executed i)
  match exit with
  | some e => throw (.exit e)
  | none => pure ()

/-- Waits on the line. A machine that nobody wakes stays as it is and can be woken later. -/
def sleep (h : Host σ) : Stepping σ (Option Exit) := do
  let line ← access h .wait fun l => (l, l)
  if !line.awake then throw .blocked
  update fun m => { m with halted := false }
  if line.pending.isSome then return none
  tell h .abandoned
  return some .stopped

def halt (h : Host σ) : Stepping σ (Option Exit) := do
  update fun m => { m with halted := true }
  -- while interrupts are off none could end a wait
  if ← access h .enabled fun l => (l.enabled, l) then sleep h
  else
    tell h .halted
    return some .halted

def system (h : Host σ) : SystemOp → Stepping σ (Option Exit)
  | .nop => return none
  | .halt => halt h
  | .enable => do
    access h .setEnabled fun l => ((), l.setEnabled true)
    return none
  | .disable => do
    access h .setEnabled fun l => ((), l.setEnabled false)
    return none

def execute (h : Host σ) (i : Instruction) : Stepping σ Unit := do
  let next ← ask fun m => toLong (m.pc + i.size)
  let pc ← attempt (i.run next)
  update fun m => { m with pc := pc }
  match i with
  | .system op => retire h i (← system h op)
  | _ => retire h i none

theorem run_execute (h : Host σ) {i : Instruction} (hi : ∀ op, i ≠ .system op) (m : Machine)
    (s : σ) :
    (execute h i).run (m, s) =
      match (i.run (toLong (m.pc + i.size))).run m.toCpu with
      | .ok pc c =>
        let m' := { m with toCpu := c, pc := pc, instructions := m.instructions + 1 }
        .ok () (m', h.observe m' (.executed i) s)
      | .error f c => .error (.trap ⟨m.pc, f⟩) ({ m with toCpu := c }, s) := by
  simp only [execute, EStateM.run_bind, run_ask, run_attempt]
  cases (i.run (toLong (m.pc + i.size))).run m.toCpu with
  | error f c => rfl
  | ok pc c =>
    simp only [run_update]
    cases i with
    | system op => exact absurd rfl (hi op)
    | plain | word | long | jump =>
      simp only [retire, EStateM.run_bind, run_update, run_tell, EStateM.run_pure]

def stepping (h : Host σ) : Stepping σ Unit := do
  poll h
  execute h (← fetchNext h)

def settle (x : Stepping σ Unit) (m : Machine) (s : σ) : Option Stop × Machine × σ :=
  match x (m, s) with
  | .ok () (m, s) => (none, m, s)
  | .error e (m, s) => (some e, m, s)

def step (h : Host σ) (m : Machine) (s : σ) : Option Stop × Machine × σ := settle (stepping h) m s

def wake (h : Host σ) (m : Machine) (s : σ) : Option Stop × Machine × σ :=
  -- the halt was fetched by the step that could not go on
  settle (do retire h (.system .halt) (← sleep h)) m s

def run (h : Host σ) : Nat → Machine → σ → Option Stop × Machine × σ
  | 0, m, s => (none, m, s)
  | fuel + 1, m, s =>
    match m.step h s with
    | (none, m, s) => run h fuel m s
    | ended => ended

def runOn (h : Host σ) (note : Machine → σ → σ) : Nat → Machine → σ → Option Stop × Machine × σ
  | 0, m, s => (none, m, s)
  | fuel + 1, m, s =>
    match m.step h s with
    | (none, m, s) => runOn h note fuel m s
    | (some (.exit (.paused _)), m, s) =>
      let s := note m s
      runOn h note fuel m s
    | ended => ended

end Machine
end TwelveBit
