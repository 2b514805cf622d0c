import TwelveBit.Proofs.StepParts
/-!
How a step can go. A poll finds the line closed or empty, or takes an interrupt and delivers it; a
host may ask for a pause; an instruction is fetched, runs on the processor and is finished. A step
traps in three places only, and never while it finishes an instruction.
-/
namespace TwelveBit

def Stop.Rests : Stop → Prop
  | .exit .halted | .exit .stopped | .blocked => True
  | .exit (.paused _) | .trap _ => False

namespace Machine
variable {σ α β : Type} {h : Host σ} {m m' k : Machine} {s s' u : σ} {irq : Interrupt}

/-- The step comes to take an interrupt: hosts act before the machine looks whether the line is
closed, and again before it takes what is pending. Nothing has happened to the rest of the
machine. -/
inductive Takes (h : Host σ) (m : Machine) (s : σ) (irq : Interrupt) : Machine → σ → Prop
  | intro {l k : Line} {t u : σ} (hl : h.approach .closed m.line s = (l, t))
      (hc : l.closed = false) (hk : h.approach .take l t = (k, u)) (hp : k.pending = some irq) :
      Takes h m s irq { m with line := k.take.2 }
        (h.observe { m with line := k.take.2 } (.taken irq) u)

inductive Polled (h : Host σ) (m : Machine) (s : σ) :
    EStateM.Result Stop (Machine × σ) Unit → Prop
  | closed {l : Line} {t : σ} (hl : h.approach .closed m.line s = (l, t))
      (hc : l.closed = true) :
      Polled h m s (.error (.exit .stopped)
        ({ m with line := l }, h.observe { m with line := l } .closed t))
  | idle {l k : Line} {t u : σ} (hl : h.approach .closed m.line s = (l, t))
      (hc : l.closed = false) (hk : h.approach .take l t = (k, u)) (hp : k.pending = none) :
      Polled h m s (.ok () ({ m with line := k }, u))
  | stopped {irq : Interrupt} {k : Machine} {u : σ} (taken : Takes h m s irq k u)
      (source : irq.source = .stop) : Polled h m s (.error (.exit .stopped) (k, u))
  | trapped {irq : Interrupt} {k : Machine} {u : σ} {f : Fault} {c : Cpu}
      (taken : Takes h m s irq k u) (source : irq.source ≠ .stop)
      (fault : (Frame.interrupt irq k.pc).run k.toCpu = .error f c) :
      Polled h m s (.error (.trap ⟨k.pc, f⟩) ({ k with toCpu := c }, u))
  | delivered {irq : Interrupt} {k n : Machine} {u : σ} {c : Cpu} (taken : Takes h m s irq k u)
      (source : irq.source ≠ .stop)
      (entered : (Frame.interrupt irq k.pc).run k.toCpu = .ok () c)
      (hn : n = { k with
        toCpu := c
        pc := k.memory.layout.romBase + irq.source.offset
        interrupts := k.interrupts + 1 }) :
      Polled h m s (.ok () (n, h.observe n (.delivered irq k.pc) u))

theorem polled_receive (taken : Takes h m s irq k (h.observe k (.taken irq) u)) :
    Polled h m s ((receive h irq).run (k, u)) := by
  simp only [receive, EStateM.run_bind, run_tell, run_ask]
  cases hv : irq.source.vector? k.memory.layout with
  | none => exact .stopped taken (Source.vector?_eq_none_iff.mp hv)
  | some vector =>
    have source : irq.source ≠ .stop := fun hs => by
      rw [Source.vector?_eq_none_iff.mpr hs] at hv
      cases hv
    have hpc := Source.vector?_eq_some hv
    simp only [run_deliver]
    cases hf : (Frame.interrupt irq k.pc).run k.toCpu with
    | error f c => exact .trapped taken source hf
    | ok x c => exact .delivered taken source hf (by rw [hpc])

theorem polled (h : Host σ) (m : Machine) (s : σ) : Polled h m s ((poll h).run (m, s)) := by
  rcases hl : h.approach .closed m.line s with ⟨l, t⟩
  rcases hk : h.approach .take l t with ⟨k, u⟩
  cases hc : l.closed with
  | true =>
    rw [run_poll_of_closed hl hc]
    exact .closed hl hc
  | false =>
    rw [run_poll_of_open hl hc hk]
    cases hp : k.pending with
    | none => exact .idle hl hc hk hp
    | some irq => exact polled_receive (.intro hl hc hk hp)

/-- Where hosts leave the line alone, nothing is pending on it after a poll. -/
theorem line_of_poll (quiet : ∀ a l s, (h.approach a l s).1 = l)
    (hx : (poll h).run (m, s) = .ok () (k, u)) :
    k.line.closed = false ∧ k.line.pending = none := by
  have unchanged {a : Access} {l l' : Line} {s t : σ} (h' : h.approach a l s = (l', t)) :
      l' = l := by
    rw [← quiet a l s, h']
  have hp := polled h m s
  rw [hx] at hp
  cases hp with
  | idle hl hc hk hp => exact ⟨unchanged hk ▸ hc, hp⟩
  | delivered taken source entered hn =>
    cases taken with
    | intro hl hc hk hp =>
      rw [hn]
      exact ⟨unchanged hk ▸ hc, rfl⟩

structure Settles (p : α → Prop) (x : Stepping σ α) : Prop where
  yields : Yields p x
  fails : Fails (fun _ e _ => e.Rests) x

namespace Settles
variable {p : α → Prop} {q : β → Prop}

theorem pure {a : α} (h : p a) : Settles p (Pure.pure a : Stepping σ α) :=
  ⟨Yields.of_pure h, Fails.of_pure a⟩

theorem throw {e : Stop} (h : e.Rests) : Settles p (MonadExcept.throw e : Stepping σ α) where
  yields := by
    intro s a s' hr
    cases hr
  fails := by
    intro s e' s' hr
    cases hr
    exact h

theorem bind {x : Stepping σ α} {f : α → Stepping σ β} (hx : Settles p x)
    (hf : ∀ a, p a → Settles q (f a)) : Settles q (x >>= f) where
  yields := hx.yields.bind fun a ha => (hf a ha).yields
  fails := Fails.bind_of (R := fun _ _ => True) (fun _ hr => hr) (fun _ => trivial) hx.yields
    hx.fails fun a ha => (hf a ha).fails

theorem throw_bind {e : Stop} (h : e.Rests) (f : α → Stepping σ β) :
    Settles q (MonadExcept.throw e >>= f) :=
  Settles.bind (throw (p := fun _ => False) h) fun _ hf => hf.elim

/-- A part that cannot fail. -/
theorem of_ok {x : Stepping σ α} (h : ∀ s, ∃ a t, x.run s = .ok a t) :
    Settles (fun _ => True) x :=
  ⟨fun _ _ _ _ => trivial, Fails.of_ok h⟩

theorem update (f : Machine → Machine) :
    Settles (fun _ => True) (Machine.update (σ := σ) f) := of_ok fun _ => ⟨_, _, rfl⟩

variable (h : Host σ)

theorem tell (e : Event) : Settles (fun _ => True) (Machine.tell h e) := of_ok fun _ => ⟨_, _, rfl⟩

theorem access (a : Access) (f : Line → α × Line) :
    Settles (fun _ => True) (Machine.access h a f) := of_ok fun _ => ⟨_, _, rfl⟩

def Calm (exit : Option Exit) : Prop := ∀ e ∈ exit, (Stop.exit e).Rests

theorem calm_none : Calm none := fun _ he => by cases he

theorem calm_some {e : Exit} (h : (Stop.exit e).Rests) : Calm (some e) := fun _ he => by
  cases he
  exact h

theorem sleep : Settles Calm (Machine.sleep h) := by
  refine (access h _ _).bind fun line _ => ?_
  cases line.awake with
  | false => exact throw_bind (e := .blocked) trivial _
  | true =>
    refine (update _).bind fun _ _ => ?_
    cases line.pending with
    | none => exact (tell h _).bind fun _ _ => pure (calm_some trivial)
    | some irq => exact pure calm_none

theorem halt : Settles Calm (Machine.halt h) := by
  refine (update _).bind fun _ _ => (access h _ _).bind fun enabled _ => ?_
  cases enabled with
  | true => exact sleep h
  | false => exact (tell h _).bind fun _ _ => pure (calm_some trivial)

theorem system (op : SystemOp) : Settles Calm (Machine.system h op) := by
  cases op with
  | nop => exact pure calm_none
  | halt => exact halt h
  | enable | disable => exact (access h _ _).bind fun _ _ => pure calm_none

theorem retire (i : Instruction) {exit : Option Exit} (hc : Calm exit) :
    Settles (fun _ => True) (Machine.retire h i exit) := by
  refine (update _).bind fun _ _ => (tell h _).bind fun _ _ => ?_
  cases exit with
  | none => exact pure trivial
  | some e => exact throw (hc e rfl)

theorem finishing (i : Instruction) : Settles (fun _ => True) (Machine.finishing h i) := by
  cases i with
  | system op => exact (system h op).bind fun _ hc => retire h _ hc
  | plain | word | long | jump => exact retire h _ calm_none

end Settles

/-- An instruction is fetched and decoded, it runs on the processor, and what is left of it comes
after that. -/
theorem run_carryOut (h : Host σ) (m : Machine) (s : σ) :
    (carryOut h).run (m, s) =
      match Instruction.fetched m.fetch with
      | .error f => .error (.trap ⟨m.pc, f⟩) (m, s)
      | .ok i =>
        match (i.run (toLong (m.pc + i.size))).run m.toCpu with
        | .error f c => .error (.trap ⟨m.pc, f⟩) ({ m with toCpu := c }, h.observe m (.fetched i) s)
        | .ok pc c =>
          (finishing h i).run ({ m with toCpu := c, pc := pc }, h.observe m (.fetched i) s) := by
  simp only [carryOut, EStateM.run_bind, run_ask]
  cases hi : Instruction.fetched m.fetch with
  | error f => rfl
  | ok i =>
    have hx : (attempt (Effect.ofExcept (.ok i))).run (m, s) = .ok i (m, s) := rfl
    simp only [hx, run_tell, execute_eq, EStateM.run_bind, run_ask, run_attempt]
    cases (i.run (toLong (m.pc + i.size))).run m.toCpu with
    | error f c => rfl
    | ok pc c => rfl

def Ready (h : Host σ) (m : Machine) (s : σ) (k : Machine) (u : σ) : Prop :=
  (poll h >>= fun _ => consult h).run (m, s) = .ok () (k, u)

theorem step_of_ready (ready : Ready h m s k u) : m.step h s = settle (carryOut h) k u := by
  rw [step_eq, ← bind_assoc]
  exact settle_of_ok ready

/-- With nobody around, a line that is open and empty stays as it is. -/
theorem poll_idle_of_none {m : Machine} (hc : m.line.closed = false)
    (hp : m.line.pending = none) : (poll Host.idle).run (m, ()) = .ok () (m, ()) := by
  rw [run_poll_of_open (l := m.line) (k := m.line) rfl hc rfl, hp]

theorem ready_idle {m : Machine} (hc : m.line.closed = false) (hp : m.line.pending = none) :
    Ready Host.idle m () m () := by
  rw [Ready, EStateM.run_bind, poll_idle_of_none hc hp]
  rfl

inductive Stepped (h : Host σ) (m : Machine) (s : σ) : Option Stop × Machine × σ → Prop
  | ended {e : Stop} {k : Machine} {u : σ} (hp : (poll h).run (m, s) = .error e (k, u)) :
      Stepped h m s (some e, k, u)
  | paused {k : Machine} {t u : σ} {acts : List Line.Action}
      (hp : (poll h).run (m, s) = .ok () (k, t)) (hb : h.beforeFetch k t = (.pause, acts, u)) :
      Stepped h m s (some (.exit (.paused k.pc)), k.perform acts, u)
  | unfetched {k : Machine} {u : σ} {f : Fault} (ready : Ready h m s k u)
      (fault : Instruction.fetched k.fetch = .error f) :
      Stepped h m s (some (.trap ⟨k.pc, f⟩), k, u)
  | failed {k : Machine} {u : σ} {i : Instruction} {f : Fault} {c : Cpu} (ready : Ready h m s k u)
      (fetched : Instruction.fetched k.fetch = .ok i)
      (fault : (i.run (toLong (k.pc + i.size))).run k.toCpu = .error f c) :
      Stepped h m s (some (.trap ⟨k.pc, f⟩), { k with toCpu := c }, h.observe k (.fetched i) u)
  | ran {k : Machine} {u : σ} {i : Instruction} {pc : Nat} {c : Cpu} (ready : Ready h m s k u)
      (fetched : Instruction.fetched k.fetch = .ok i)
      (ran : (i.run (toLong (k.pc + i.size))).run k.toCpu = .ok pc c)
      {r : Option Stop × Machine × σ}
      (hr : settle (finishing h i) { k with toCpu := c, pc := pc }
        (h.observe k (.fetched i) u) = r) :
      Stepped h m s r

theorem settle_eq (x : Stepping σ Unit) (m : Machine) (s : σ) :
    settle x m s =
      match x.run (m, s) with
      | .ok () (m, s) => (none, m, s)
      | .error e (m, s) => (some e, m, s) := rfl

/-- What settles neither traps nor pauses. -/
theorem Settles.rests {p : Unit → Prop} {x : Stepping σ Unit} (hx : Settles p x) {e : Stop}
    (he : (settle x m s).1 = some e) : e.Rests := by
  rw [settle_eq] at he
  cases hr : x.run (m, s) with
  | ok a q =>
    rw [hr] at he
    cases he
  | error e' q =>
    rw [hr] at he
    cases he
    exact hx.fails _ e q hr

theorem stepped (h : Host σ) (m : Machine) (s : σ) : Stepped h m s (m.step h s) := by
  rw [step_eq]
  cases hp : (poll h).run (m, s) with
  | error e q =>
    rw [settle_of_error hp]
    exact .ended hp
  | ok x q =>
    obtain ⟨n, t⟩ := q
    rw [settle_of_ok hp]
    have hc := run_consult h n t
    rcases hb : h.beforeFetch n t with ⟨flow, acts, u⟩
    rw [hb] at hc
    cases flow with
    | pause =>
      rw [settle_of_error hc]
      exact .paused hp hb
    | proceed =>
      have ready : Ready h m s (n.perform acts) u := by
        simp only [Ready, EStateM.run_bind, hp, hc]
      rw [settle_of_ok hc, settle_eq, run_carryOut]
      cases hi : Instruction.fetched (n.perform acts).fetch with
      | error f => exact .unfetched ready hi
      | ok i =>
        dsimp only
        cases hx : (i.run (toLong ((n.perform acts).pc + i.size))).run (n.perform acts).toCpu with
        | error f c => exact .failed ready hi hx
        | ok pc c => exact .ran ready hi hx rfl

inductive Activity where
  | delivery (irq : Interrupt)
  | fetch
  | execution (i : Instruction)
  deriving DecidableEq, Repr

/-- The step traps at what the machine `k`, with hosts in state `u`, was about to do; nothing comes
after that. -/
inductive Traps (h : Host σ) (m : Machine) (s : σ) :
    Activity → Machine → σ → Trap → Machine → σ → Prop
  | delivery {irq : Interrupt} {k : Machine} {u : σ} {f : Fault} {c : Cpu}
      (taken : Takes h m s irq k u) (source : irq.source ≠ .stop)
      (fault : (Frame.interrupt irq k.pc).run k.toCpu = .error f c) :
      Traps h m s (.delivery irq) k u ⟨k.pc, f⟩ { k with toCpu := c } u
  | fetch {k : Machine} {u : σ} {f : Fault} (ready : Ready h m s k u)
      (fault : Instruction.fetched k.fetch = .error f) : Traps h m s .fetch k u ⟨k.pc, f⟩ k u
  | execution {k : Machine} {u : σ} {i : Instruction} {f : Fault} {c : Cpu}
      (ready : Ready h m s k u) (fetched : Instruction.fetched k.fetch = .ok i)
      (fault : (i.run (toLong (k.pc + i.size))).run k.toCpu = .error f c) :
      Traps h m s (.execution i) k u ⟨k.pc, f⟩ { k with toCpu := c } (h.observe k (.fetched i) u)

theorem traps_of_step {t : Trap} (ht : m.step h s = (some (.trap t), m', s')) :
    ∃ a k u, Traps h m s a k u t m' s' := by
  have hs := stepped h m s
  rw [ht] at hs
  cases hs with
  | ended hp =>
    have hp' := polled h m s
    rw [hp] at hp'
    cases hp' with
    | trapped taken source fault => exact ⟨_, _, _, .delivery taken source fault⟩
  | unfetched ready fault => exact ⟨_, _, _, .fetch ready fault⟩
  | failed ready fetched fault => exact ⟨_, _, _, .execution ready fetched fault⟩
  | ran _ _ _ hr => exact ((Settles.finishing h _).rests (congrArg Prod.fst hr)).elim

/-- The program counter stays at the address that the trap names. -/
theorem Traps.pc_eq {a : Activity} {t : Trap} (ht : Traps h m s a k u t m' s') : t.pc = m'.pc := by
  cases ht <;> rfl

/-- A machine that was left waiting neither traps nor pauses when it goes on. -/
theorem rests_of_wake {e : Stop} (he : (m.wake h s).1 = some e) : e.Rests := by
  have hw : Settles (fun _ => True) (sleep h >>= retire h (.system .halt)) :=
    (Settles.sleep h).bind fun _ hc => Settles.retire h _ hc
  exact hw.rests he

end Machine
end TwelveBit
