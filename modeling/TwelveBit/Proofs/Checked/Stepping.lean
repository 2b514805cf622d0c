import TwelveBit.Proofs.Checked.Execution
import TwelveBit.Proofs.StepParts
/-!
Checked steps. What a step does to the processor and to memory has room in any case; its counters
have as long as they are small enough when the step ends, because no part of a step puts them back.
-/
namespace TwelveBit.Checked
open Guarded
variable {σ α β : Type}

structure Counted (m : Machine) : Prop where
  instructions : m.instructions < size64
  interrupts : m.interrupts < size64
  missed : m.line.missed < size64

instance (m : Machine) : Decidable (Counted m) :=
  decidable_of_iff (m.instructions < size64 ∧ m.interrupts < size64 ∧ m.line.missed < size64)
    ⟨fun ⟨hi, hr, hm⟩ => ⟨hi, hr, hm⟩, fun h => ⟨h.instructions, h.interrupts, h.missed⟩⟩

structure Grown (p q : Machine × σ) : Prop where
  instructions : p.1.instructions ≤ q.1.instructions
  interrupts : p.1.interrupts ≤ q.1.interrupts
  missed : p.1.line.missed ≤ q.1.line.missed

theorem Grown.of_eq {m k : Machine} {s t : σ} (hi : k.instructions = m.instructions)
    (hr : k.interrupts = m.interrupts) (hm : k.line = m.line) : Grown (m, s) (k, t) :=
  ⟨Nat.le_of_eq hi.symm, Nat.le_of_eq hr.symm, Nat.le_of_eq (congrArg Line.missed hm.symm)⟩

instance : IsPreorder (Machine × σ) Grown where
  refl _ := .of_eq rfl rfl rfl
  trans _ _ _ h h' := ⟨Nat.le_trans h.instructions h'.instructions,
    Nat.le_trans h.interrupts h'.interrupts, Nat.le_trans h.missed h'.missed⟩

theorem Grown.counted {p q : Machine × σ} (h : Grown p q) (hq : Counted q.1) :
    Counted p.1 :=
  ⟨Nat.lt_of_le_of_lt h.instructions hq.instructions,
    Nat.lt_of_le_of_lt h.interrupts hq.interrupts, Nat.lt_of_le_of_lt h.missed hq.missed⟩

def interruptOf (s : Source) (args : List Nat) : Except Panic Interrupt := do
  span 3 0 (min args.length 3)
  span args.length 0 (min args.length 3)
  return Interrupt.make s args

theorem interruptOf_eq (s : Source) (args : List Nat) :
    interruptOf s args = .ok (Interrupt.make s args) := by
  rw [interruptOf, span_of_le (by omega), ok_bind, span_of_le (by omega)]
  rfl

def request (irq : Interrupt) (l : Line) : Except Panic Line :=
  if l.accepting then return { l with pending := some irq }
  else do return { l with missed := ← add size64 l.missed 1 }

def perform (l : Line) : Line.Action → Except Panic Line
  | .request irq => request irq l
  | .setEnabled on => return l.setEnabled on
  | .close => return l.close

def performAll (l : Line) : List Line.Action → Except Panic Line
  | [] => return l
  | act :: acts => do performAll (← perform l act) acts

theorem missed_le_perform (l : Line) (act : Line.Action) : l.missed ≤ (l.perform act).missed := by
  cases act with
  | request irq =>
    simp only [Line.perform, Line.request]
    split
    · exact Nat.le_refl _
    · exact Nat.le_succ _
  | setEnabled | close => exact Nat.le_refl _

theorem missed_le_performAll (l : Line) (acts : List Line.Action) :
    l.missed ≤ (l.performAll acts).missed := by
  induction acts generalizing l with
  | nil => exact Nat.le_refl _
  | cons act acts ih => exact Nat.le_trans (missed_le_perform l act) (ih (l.perform act))

theorem perform_eq {l : Line} {act : Line.Action} (h : (l.perform act).missed < size64) :
    perform l act = .ok (l.perform act) := by
  cases act with
  | request irq =>
    simp only [Line.perform, Line.request] at h ⊢
    rw [perform, request]
    by_cases ready : l.accepting = true
    · rw [if_pos ready, if_pos ready]
      rfl
    · rw [if_neg ready] at h
      rw [if_neg ready, if_neg ready, add_of_lt h]
      rfl
  | setEnabled | close => rfl

example : perform { missed := 0xFFFFFFFFFFFFFFFF } (.request .timer) = .error .overflow := rfl

theorem performAll_eq {l : Line} {acts : List Line.Action}
    (h : (l.performAll acts).missed < size64) : performAll l acts = .ok (l.performAll acts) := by
  induction acts generalizing l with
  | nil => rfl
  | cons act acts ih =>
    have later := missed_le_performAll (l.perform act) acts
    have whole : ((l.perform act).performAll acts).missed < size64 := h
    rw [performAll, perform_eq (Nat.lt_of_le_of_lt later whole), ok_bind, ih whole]
    rfl

abbrev Asking := Guarded Fault (List Nat)

def askLong (fetch : Fetch) (i : Nat) : Asking Nat := do
  let high ← free (Instruction.ask fetch i)
  let low ← free (Instruction.ask fetch (← add size32 i 1))
  return ← join high low

def askJump (fetch : Fetch) : Asking Jump := do
  let mode ← free (Instruction.ask fetch 1)
  match JumpMode.ofNumber? mode with
  | none => free (throw (.unknownJumpMode mode))
  | some (.when c) => return .absolute c (← askLong fetch 2)
  | some .relative => return .relative

def decode (fetch : Fetch) : Asking Instruction := do
  let number ← free (Instruction.ask fetch 0)
  match Opcode.ofNumber? number with
  | none => free (throw (.unknownOpcode number))
  | some (.system op) => return .system op
  | some (.plain op) => return .plain op
  | some (.word op) => return .word op (← free (Instruction.ask fetch 1))
  | some (.long op) => return .long op (← askLong fetch 1)
  | some .jump => return .jump (← askJump fetch)

def fetched (fetch : Fetch) : Except Panic (Except Fault Instruction) := do
  match ← (decode fetch).run [] with
  | .ok i _ => return .ok i
  | .error f _ => return .error f

theorem askLong_eq (fetch : Fetch) {i : Nat} (h : i + 1 < size32) :
    askLong fetch i = free (Instruction.askLong fetch i) := by
  simp only [askLong, Instruction.askLong, add_of_lt h, join_eq, lift_ok, pure_bind,
    free_bind_free]

theorem askJump_eq (fetch : Fetch) : askJump fetch = free (Instruction.askJump fetch) := by
  have target := askLong_eq fetch (show 2 + 1 < size32 by decide)
  refine free_bind_of fun mode => ?_
  cases JumpMode.ofNumber? mode with
  | none => rfl
  | some mode =>
    cases mode with
    | relative => rfl
    | when c => simp only [target, pure_eq_free, free_bind_free]

theorem decode_eq (fetch : Fetch) : decode fetch = free (Instruction.decode fetch) := by
  have operand := askLong_eq fetch (show 1 + 1 < size32 by decide)
  refine free_bind_of fun number => ?_
  cases Opcode.ofNumber? number with
  | none => rfl
  | some op =>
    cases op with
    | system | plain => rfl
    | word | long | jump => simp only [operand, askJump_eq, pure_eq_free, free_bind_free]

theorem fetched_eq (fetch : Fetch) : fetched fetch = .ok (Instruction.fetched fetch) := by
  rw [fetched, decode_eq, run_free, ok_bind, Instruction.fetched_eq]
  cases (Instruction.decode fetch).run [] <;> rfl

abbrev Part (σ α : Type) := Guarded Stop (Machine × σ) α

def ask (f : Machine → Except Panic α) : Part σ α := fun (m, s) => do return .ok (← f m) (m, s)

def update (f : Machine → Except Panic Machine) : Part σ Unit := fun (m, s) => do
  return .ok () (← f m, s)

def access (h : Host σ) (a : Access) (f : Line → α × Line) : Part σ α := fun (m, s) => do
  let (acts, s) := h.meanwhile a m.line s
  let (r, line) := f (← performAll m.line acts)
  return .ok r ({ m with line := line }, s)

def attempt (x : Effect α) : Part σ α := fun (m, s) => do
  match ← x.run m.toCpu with
  | .ok a c => return .ok a ({ m with toCpu := c }, s)
  | .error f c => return .error (.trap ⟨m.pc, f⟩) ({ m with toCpu := c }, s)

def vector? (s : Source) (l : Layout) : Except Panic (Option Nat) :=
  match s with
  | .stop => return none
  | s => do return some (← add size32 (← romBase l) s.offset)

def deliver (h : Host σ) (irq : Interrupt) (vector : Nat) : Part σ Unit := do
  let ret ← ask fun m => return m.pc
  attempt (interrupt irq ret)
  update fun m => do
    return { m with pc := vector, interrupts := ← add size64 m.interrupts 1 }
  free (Machine.tell h (.delivered irq ret))

def poll (h : Host σ) : Part σ Unit := do
  if ← access h .closed fun l => (l.closed, l) then
    free (Machine.tell h .closed)
    free (throw (.exit .stopped))
  match ← access h .take Line.take with
  | none => return ()
  | some irq =>
    free (Machine.tell h (.taken irq))
    match ← vector? irq.source (← ask fun m => return m.memory.layout) with
    | none => free (throw (.exit .stopped))
    | some vector => deliver h irq vector

def consult (h : Host σ) : Part σ Unit := fun (m, s) => do
  let (flow, acts, s) := h.beforeFetch m s
  let m := { m with line := ← performAll m.line acts }
  match flow with
  | .proceed => return .ok () (m, s)
  | .pause => return .error (.exit (.paused m.pc)) (m, s)

def retire (h : Host σ) (i : Instruction) (exit : Option Exit) : Part σ Unit := do
  update fun m => do return { m with instructions := ← add size64 m.instructions 1 }
  free (Machine.tell h (.executed i))
  match exit with
  | some e => free (throw (.exit e))
  | none => return ()

def sleep (h : Host σ) : Part σ (Option Exit) := do
  let line ← access h .wait fun l => (l, l)
  if !line.awake then free (throw .blocked)
  update fun m => return { m with halted := false }
  if line.pending.isSome then return none
  free (Machine.tell h .abandoned)
  return some .stopped

def halt (h : Host σ) : Part σ (Option Exit) := do
  update fun m => return { m with halted := true }
  if ← access h .enabled fun l => (l.enabled, l) then sleep h
  else
    free (Machine.tell h .halted)
    return some .halted

def system (h : Host σ) : SystemOp → Part σ (Option Exit)
  | .nop => return none
  | .halt => halt h
  | .enable => do
    access h .setEnabled fun l => ((), l.setEnabled true)
    return none
  | .disable => do
    access h .setEnabled fun l => ((), l.setEnabled false)
    return none

def execute (h : Host σ) (i : Instruction) : Part σ Unit := do
  let next ← ask fun m => return toLong (m.pc + i.size)
  let pc ← attempt (instruction next i)
  update fun m => return { m with pc := pc }
  match i with
  | .system op => retire h i (← system h op)
  | _ => retire h i none

def carryOut (h : Host σ) : Part σ Unit := do
  let i ← attempt (free (TwelveBit.Effect.ofExcept (← ask fun m => fetched m.fetch)))
  free (Machine.tell h (.fetched i))
  execute h i

def stepping (h : Host σ) : Part σ Unit := do
  poll h
  consult h
  carryOut h

theorem vector?_eq (s : Source) (l : Layout) : vector? s l = .ok (s.vector? l) := by
  have le := l.romBase_le_total
  have space := l.total_le_space
  cases s with
  | stop => rfl
  | timer | vblank | keyboard | mouse =>
    rw [vector?, romBase_eq, ok_bind, add_of_lt (by simp only [size32, Source.offset]; omega)]
    rfl
    all_goals exact fun h => Source.noConfusion h

/-- The checked part does what the other one does, wherever the counters left behind fit into 64
bits; and it does not put them back. -/
structure Tame (x : Part σ α) (y : Machine.Stepping σ α) : Prop where
  grows : Keeps Grown y
  agrees : ∀ p, Counted (leftBehind (y.run p)).1 → x.run p = .ok (y.run p)

namespace Tame

theorem free {y : Machine.Stepping σ α} (h : Keeps Grown y) : Tame (Guarded.free y) y :=
  ⟨h, fun _ _ => rfl⟩

theorem pure (a : α) : Tame (σ := σ) (Pure.pure a) (Pure.pure a) := free (Keeps.of_pure a)

theorem throw (e : Stop) : Tame (σ := σ) (α := α) (Guarded.free (MonadExcept.throw e))
    (MonadExcept.throw e) := free (Keeps.of_throw e)

theorem tell (h : Host σ) (e : Event) :
    Tame (Guarded.free (Machine.tell h e)) (Machine.tell h e) :=
  free fun _ => .of_eq rfl rfl rfl

theorem bind {x : Part σ α} {y : Machine.Stepping σ α} {f : α → Part σ β}
    {g : α → Machine.Stepping σ β} (hx : Tame x y) (hf : ∀ a, Tame (f a) (g a)) :
    Tame (x >>= f) (y >>= g) := by
  refine ⟨hx.grows.bind fun a => (hf a).grows, fun p hp => ?_⟩
  rw [EStateM.run_bind] at hp
  rw [run_bind, EStateM.run_bind]
  cases hr : y.run p with
  | error e q =>
    rw [hr] at hp
    rw [hx.agrees p (by rw [hr]; exact hp), hr]
    rfl
  | ok a q =>
    rw [hr] at hp
    have between : Counted q.1 := ((hf a).grows q).counted hp
    rw [hx.agrees p (by rw [hr]; exact between), hr, resume_ok]
    exact (hf a).agrees q hp

theorem throw_bind (e : Stop) (f : α → Part σ β) (g : α → Machine.Stepping σ β) :
    Tame (Guarded.free (MonadExcept.throw e) >>= f) (MonadExcept.throw e >>= g) :=
  ⟨Keeps.of_throw_bind e g, fun _ _ => rfl⟩

theorem ask {f : Machine → Except Panic α} {g : Machine → α} (h : ∀ m, f m = .ok (g m)) :
    Tame (σ := σ) (Checked.ask f) (Machine.ask g) := by
  refine ⟨Machine.keeps_ask g, fun (m, s) _ => ?_⟩
  rw [run, Checked.ask, h m]
  rfl

theorem update {f : Machine → Except Panic Machine} {g : Machine → Machine}
    (grows : ∀ m (s : σ), Grown (m, s) (g m, s)) (h : ∀ m, Counted (g m) → f m = .ok (g m)) :
    Tame (σ := σ) (Checked.update f) (Machine.update g) := by
  refine ⟨Machine.keeps_update grows, fun (m, s) hm => ?_⟩
  rw [run, Checked.update, h m hm]
  rfl

theorem attempt {x : Effect α} {y : TwelveBit.Effect α} (h : x = Guarded.free y) :
    Tame (σ := σ) (Checked.attempt x) (Machine.attempt y) := by
  refine ⟨fun (m, s) => ?_, fun (m, s) _ => ?_⟩
  · rw [Machine.leftBehind_attempt]
    exact .of_eq rfl rfl rfl
  · rw [run, Checked.attempt, h, run_free, ok_bind, Machine.run_attempt]
    cases y.run m.toCpu <;> rfl

variable (h : Host σ)

theorem access (a : Access) {f : Line → α × Line} (hf : ∀ l, (f l).2.missed = l.missed) :
    Tame (Checked.access h a f) (Machine.access h a f) := by
  refine ⟨fun (m, s) => ?_, fun (m, s) hm => ?_⟩
  · rw [Machine.run_access]
    refine ⟨Nat.le_refl _, Nat.le_refl _, ?_⟩
    dsimp only [leftBehind]
    rw [hf]
    exact missed_le_performAll m.line (h.meanwhile a m.line s).1
  · have small := hm.missed
    rw [Machine.run_access] at small
    dsimp only [leftBehind] at small
    rw [hf] at small
    rw [run, Checked.access]
    dsimp only
    rw [performAll_eq small]
    rfl

theorem consult : Tame (Checked.consult h) (Machine.consult h) := by
  refine ⟨fun (m, s) => ?_, fun (m, s) hm => ?_⟩
  · rw [Machine.leftBehind_consult]
    exact ⟨Nat.le_refl _, Nat.le_refl _, missed_le_performAll m.line (h.beforeFetch m s).2.1⟩
  · have small := hm.missed
    rw [Machine.leftBehind_consult] at small
    rcases hb : h.beforeFetch m s with ⟨flow, acts, t⟩
    rw [hb] at small
    have line : performAll m.line acts = .ok (m.line.performAll acts) := performAll_eq small
    simp only [run, Checked.consult, Machine.run_consult, hb, line, ok_bind]
    cases flow <;> rfl

theorem deliver (irq : Interrupt) (vector : Nat) :
    Tame (Checked.deliver h irq vector) (Machine.deliver h irq vector) := by
  refine (ask fun _ => rfl).bind fun ret => (attempt (interrupt_eq irq ret)).bind fun _ =>
    Tame.bind (update (fun m s => ?_) fun m hm => ?_) fun _ => tell h _
  · exact ⟨Nat.le_refl _, Nat.le_succ _, Nat.le_refl _⟩
  · rw [add_of_lt hm.interrupts]
    rfl

theorem poll : Tame (Checked.poll h) (Machine.poll h) := by
  refine (access h _ fun _ => rfl).bind fun closed => ?_
  cases closed with
  | true => exact (tell h _).bind fun _ => throw_bind _ _ _
  | false =>
    refine (access h _ fun _ => rfl).bind fun pending => ?_
    cases pending with
    | none => exact pure _
    | some irq =>
      refine (tell h _).bind fun _ => (ask fun _ => rfl).bind fun l => ?_
      rw [vector?_eq, lift_ok, free_pure_bind]
      cases irq.source.vector? l with
      | none => exact throw _
      | some vector => exact deliver h irq vector

theorem retire (i : Instruction) (exit : Option Exit) :
    Tame (Checked.retire h i exit) (Machine.retire h i exit) := by
  refine Tame.bind (update (fun m s => ?_) fun m hm => ?_) fun _ => (tell h _).bind fun _ => ?_
  · exact ⟨Nat.le_succ _, Nat.le_refl _, Nat.le_refl _⟩
  · rw [add_of_lt hm.instructions]
    rfl
  · cases exit with
    | none => exact pure _
    | some e => exact throw _

theorem sleep : Tame (Checked.sleep h) (Machine.sleep h) := by
  refine (access h _ fun _ => rfl).bind fun line => ?_
  cases line.awake with
  | false => exact throw_bind _ _ _
  | true =>
    refine Tame.bind (update (fun _ _ => .of_eq rfl rfl rfl) fun _ _ => rfl) fun _ => ?_
    cases line.pending with
    | none => exact (tell h _).bind fun _ => pure _
    | some irq => exact pure _

theorem halt : Tame (Checked.halt h) (Machine.halt h) := by
  refine Tame.bind (update (fun _ _ => .of_eq rfl rfl rfl) fun _ _ => rfl) fun _ =>
    (access h _ fun _ => rfl).bind fun enabled => ?_
  cases enabled with
  | true => exact sleep h
  | false => exact (tell h _).bind fun _ => pure _

theorem system (op : SystemOp) : Tame (Checked.system h op) (Machine.system h op) := by
  cases op with
  | nop => exact pure _
  | halt => exact halt h
  | enable | disable => exact (access h _ fun _ => rfl).bind fun _ => pure _

theorem execute (i : Instruction) : Tame (Checked.execute h i) (Machine.execute h i) := by
  refine (ask fun _ => rfl).bind fun next => (attempt (instruction_eq next i)).bind fun pc =>
    Tame.bind (update (fun _ _ => .of_eq rfl rfl rfl) fun _ _ => rfl) fun _ => ?_
  cases i with
  | system op => exact (system h op).bind fun exit => retire h _ exit
  | plain | word | long | jump => exact retire h _ none

theorem carryOut : Tame (Checked.carryOut h) (Machine.carryOut h) :=
  (ask fun m => fetched_eq m.fetch).bind fun _ => (attempt rfl).bind fun _ =>
    (tell h _).bind fun _ => execute h _

theorem stepping : Tame (Checked.stepping h) (Machine.stepping h) := by
  rw [Machine.stepping_eq]
  exact (poll h).bind fun _ => (consult h).bind fun _ => carryOut h

end Tame

def settle (x : Part σ Unit) (m : Machine) (s : σ) :
    Except Panic (Option Stop × Machine × σ) := do
  match ← x.run (m, s) with
  | .ok () (m, s) => return (none, m, s)
  | .error e (m, s) => return (some e, m, s)

def step (h : Host σ) (m : Machine) (s : σ) : Except Panic (Option Stop × Machine × σ) :=
  settle (stepping h) m s

def wake (h : Host σ) (m : Machine) (s : σ) : Except Panic (Option Stop × Machine × σ) :=
  settle (do retire h (.system .halt) (← sleep h)) m s

def run (h : Host σ) : Nat → Machine → σ → Except Panic (Option Stop × Machine × σ)
  | 0, m, s => return (none, m, s)
  | fuel + 1, m, s => do
    match ← step h m s with
    | (none, m, s) => run h fuel m s
    | ended => return ended

theorem Tame.settle {x : Part σ Unit} {y : Machine.Stepping σ Unit} (hxy : Tame x y) {m : Machine}
    {s : σ} (hm : Counted (Machine.settle y m s).2.1) :
    settle x m s = .ok (Machine.settle y m s) := by
  rw [Machine.settle_snd] at hm
  rw [Checked.settle, hxy.agrees (m, s) hm, ok_bind, Machine.settle]
  show _ = Except.ok (match y.run (m, s) with | .ok () (m, s) => _ | .error e (m, s) => _)
  cases y.run (m, s) <;> rfl

variable (h : Host σ)

theorem step_eq {m : Machine} {s : σ} (hm : Counted (m.step h s).2.1) :
    step h m s = .ok (m.step h s) := (Tame.stepping h).settle hm

theorem wake_eq {m : Machine} {s : σ} (hm : Counted (m.wake h s).2.1) :
    wake h m s = .ok (m.wake h s) :=
  ((Tame.sleep h).bind fun exit => Tame.retire h _ exit).settle hm

theorem grown_step (m : Machine) (s : σ) : Grown (m, s) (m.step h s).2 := by
  rw [Machine.step, Machine.settle_snd]
  exact (Tame.stepping h).grows (m, s)

theorem grown_run (n : Nat) (m : Machine) (s : σ) : Grown (m, s) (Machine.run h n m s).2 := by
  induction n generalizing m s with
  | zero => exact .of_eq rfl rfl rfl
  | succ n ih =>
    have first := grown_step h m s
    rw [Machine.run]
    rcases hr : m.step h s with ⟨stop, k, t⟩
    rw [hr] at first
    cases stop with
    | some stop => exact first
    | none => exact IsTrans.trans _ _ _ first (ih k t)

theorem run_eq {n : Nat} {m : Machine} {s : σ} (hm : Counted (Machine.run h n m s).2.1) :
    run h n m s = .ok (Machine.run h n m s) := by
  induction n generalizing m s with
  | zero => rfl
  | succ n ih =>
    rw [Machine.run] at hm
    rw [run, Machine.run]
    rcases hr : m.step h s with ⟨stop, k, t⟩
    rw [hr] at hm
    cases stop with
    | some stop =>
      rw [step_eq h (by rw [hr]; exact hm), ok_bind, hr]
      rfl
    | none =>
      have between : Counted k := (grown_run h n k t).counted hm
      rw [step_eq h (by rw [hr]; exact between), ok_bind, hr]
      exact ih hm

end TwelveBit.Checked
