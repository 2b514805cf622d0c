import TwelveBit.Proofs.Accounting
import TwelveBit.Proofs.EffectParts
import TwelveBit.Proofs.Finishing
import TwelveBit.Proofs.Reset
/-!
The mark of the stack: the highest address that a push has written since the last reset. The stack
pointer can be higher, because a call leaves room for locals without writing them, and it comes down
again. So the mark follows the pushes themselves: they are logged beside a run, and what a step does
to the mark and to memory is read off the log.
-/
namespace TwelveBit

/-- Where pushes write in the delivery of an interrupt that was taken, or in the instruction that was
fetched. Nothing comes between the two and what they announce. -/
def Event.pushes (m : Machine) : Event → List Nat
  | .taken irq =>
    if irq.source = .stop then [] else (Parts.interrupt (p := False) irq m.pc).pushes m.toCpu
  | .fetched i => (Parts.instruction (toLong (m.pc + i.size)) i).pushes m.toCpu
  | .closed | .delivered _ _ | .halted | .abandoned | .executed _ => []

variable {σ : Type}

def Host.logged (h : Host σ) : Host (σ × List Nat) where
  meanwhile a l := fun (s, ps) =>
    let (acts, s) := h.meanwhile a l s
    (acts, s, ps)
  beforeFetch m := fun (s, ps) =>
    let (flow, acts, s) := h.beforeFetch m s
    (flow, acts, s, ps)
  observe m e := fun (s, ps) => (h.observe m e s, ps ++ e.pushes m)

namespace Machine

def stepPushes (h : Host σ) (m : Machine) (s : σ) : List Nat := (m.step h.logged (s, [])).2.2.2

theorem follows_logged (h : Host σ) : Follows Prod.fst h h.logged where
  meanwhile _ _ _ := rfl
  observe _ _ _ := rfl
  beforeFetch _ _ := rfl

variable {h : Host σ} {m k : Machine} {s : σ} {p u : σ × List Nat} {irq : Interrupt}
  {Q : List Nat → Cpu → Cpu → Prop}

def Logged (Q : List Nat → Cpu → Cpu → Prop) (p q : Machine × σ × List Nat) : Prop :=
  ∃ ps, q.2.2 = p.2.2 ++ ps ∧ Q ps p.1.toCpu q.1.toCpu

theorem logged_of_same (hQ : Tracks Q) {p q : Machine × σ × List Nat} (hc : q.1.toCpu = p.1.toCpu)
    (hl : q.2.2 = p.2.2) : Logged Q p q :=
  ⟨[], by rw [hl, List.append_nil], hc ▸ hQ.nil _⟩

theorem isPreorder_logged (hQ : Tracks Q) : IsPreorder (Machine × σ × List Nat) (Logged Q) where
  refl _ := logged_of_same hQ rfl rfl
  trans := by
    rintro p q r ⟨ps, hp, hps⟩ ⟨qs, hq, hqs⟩
    exact ⟨ps ++ qs, by rw [hq, hp, List.append_assoc], hQ.append hps hqs⟩

theorem approach_logged {a : Access} {l l' : Line} (hl : h.logged.approach a l p = (l', u)) :
    u.2 = p.2 := by
  cases hl
  rfl

/-- What is left of an instruction once it has run does nothing to the processor. -/
theorem Waited.silent {r : Option Stop × Machine × σ × List Nat}
    (hw : Waited h.logged m p r) : r.2.1.toCpu = m.toCpu ∧ r.2.2.2 = p.2 := by
  cases hw with
  | blocked hl hp hc => exact ⟨rfl, approach_logged hl⟩
  | woken hl hp hk =>
    subst hk
    exact ⟨rfl, (List.append_nil _).trans (approach_logged hl)⟩
  | abandoned hl hp hc hk =>
    subst hk
    refine ⟨rfl, (List.append_nil _).trans ((List.append_nil _).trans (approach_logged hl))⟩

theorem Finished.silent {i : Instruction} {r : Option Stop × Machine × σ × List Nat}
    (hf : Finished h.logged m p i r) : r.2.1.toCpu = m.toCpu ∧ r.2.2.2 = p.2 := by
  cases hf with
  | plainly hi hne => exact ⟨rfl, List.append_nil _⟩
  | switched hi hl hk =>
    subst hk
    exact ⟨rfl, (List.append_nil _).trans (approach_logged hl)⟩
  | halted hl he hk =>
    subst hk
    exact ⟨rfl, (List.append_nil _).trans ((List.append_nil _).trans (approach_logged hl))⟩
  | waited hl he hr =>
    obtain ⟨hc, hlog⟩ := hr.silent
    exact ⟨hc, hlog.trans (approach_logged hl)⟩

/-- An interrupt that is taken is logged with the pushes of its delivery. -/
theorem Takes.logs (taken : Takes h.logged m p irq k u) :
    k.toCpu = m.toCpu ∧ u.2 = p.2 ++ (Event.taken irq).pushes k := by
  cases taken with
  | intro hl hc hk hp =>
    refine ⟨rfl, ?_⟩
    rw [← approach_logged hl, ← approach_logged hk]
    rfl

theorem poll_logged (hQ : Tracks Q) : Keeps (Logged Q) (poll h.logged) := by
  intro (m, p)
  have entered {irq : Interrupt} {k : Machine} {u : σ × List Nat}
      (taken : Takes h.logged m p irq k u) (source : irq.source ≠ .stop) :
      ∃ ps, u.2 = p.2 ++ ps ∧
        Q ps m.toCpu (leftBehind ((Frame.interrupt irq k.pc).run k.toCpu)) := by
    obtain ⟨hc, hl⟩ := taken.logs
    rw [Event.pushes, if_neg source] at hl
    exact ⟨_, hl, hc ▸ Parts.tracked hQ False.elim _ _⟩
  have hp := polled h.logged m p
  generalize (poll h.logged).run (m, p) = r at hp ⊢
  -- a delivery that fails half way has made the pushes that the log names
  cases hp with
  | closed hl hc => exact logged_of_same hQ rfl ((List.append_nil _).trans (approach_logged hl))
  | idle hl hc hk hp =>
    exact logged_of_same hQ rfl ((approach_logged hk).trans (approach_logged hl))
  | stopped taken source =>
    obtain ⟨hc, hl⟩ := taken.logs
    rw [Event.pushes, if_pos source, List.append_nil] at hl
    exact logged_of_same hQ hc hl
  | trapped taken source fault =>
    have hd := entered taken source
    rw [fault] at hd
    exact hd
  | delivered taken source ok hn =>
    obtain ⟨ps, hl, hd⟩ := entered taken source
    rw [ok] at hd
    subst hn
    exact ⟨ps, (List.append_nil _).trans hl, hd⟩

theorem consult_logged (hQ : Tracks Q) : Keeps (Logged Q) (consult h.logged) := by
  intro (m, p)
  rw [leftBehind_consult]
  exact logged_of_same hQ rfl rfl

theorem ready_logged (hQ : Tracks Q) (ready : Ready h.logged m p k u) : Logged Q (m, p) (k, u) := by
  have := isPreorder_logged (σ := σ) hQ
  exact ((poll_logged hQ).bind fun _ => consult_logged hQ).of_ok ready

/-- Where the logging host lets a machine come, the host alone does so too. -/
theorem ready_of_logged (ready : Ready h.logged m p k u) : Ready h m p.1 k u.1 := by
  have hf := follows_logged h
  have hm := ((Mirrors.poll hf.toEchoes).bind fun _ => Mirrors.consult hf.beforeFetch) m p
  rw [ready] at hm
  exact hm

/-- A step that comes to a store needs a relation that allows for stores. -/
theorem step_logged (hQ : Tracks Q)
    (stores : ∀ i, ComesTo h m p.1 i → i.Stores → AllowsStores Q) :
    Logged Q (m, p) (m.step h.logged p).2 := by
  have := isPreorder_logged (σ := σ) hQ
  have ran {k : Machine} {u : σ × List Nat} {i : Instruction} (ready : Ready h.logged m p k u)
      (fetched : Instruction.fetched k.fetch = .ok i) :
      Q ((Event.fetched i).pushes k) k.toCpu
        (leftBehind ((i.run (toLong (k.pc + i.size))).run k.toCpu)) :=
    Parts.tracked hQ (stores i ⟨k, u.1, ready_of_logged ready, fetched⟩) _ _
  have hs := stepped h.logged m p
  generalize m.step h.logged p = r at hs ⊢
  -- after the poll the log grows only where an instruction is fetched
  cases hs with
  | ended hp => exact (poll_logged hQ).fails _ _ _ hp
  | @paused k t u acts hp hb =>
    obtain ⟨ps, hl, hd⟩ := (poll_logged hQ).of_ok hp
    have hu : t.2 = u.2 := congrArg (·.2.2.2) hb
    exact ⟨ps, hu ▸ hl, hd⟩
  | unfetched ready fault => exact ready_logged hQ ready
  | @failed k u i f c ready fetched fault =>
    have hd := ran ready fetched
    rw [fault] at hd
    exact IsTrans.trans _ _ _ (ready_logged hQ ready) ⟨_, rfl, hd⟩
  | @ran k u i pc c ready fetched ok r hr =>
    have hd := ran ready fetched
    rw [ok] at hd
    have hf := finished h.logged { k with toCpu := c, pc := pc }
      (h.logged.observe k (.fetched i) u) i
    rw [hr] at hf
    obtain ⟨hc, hl⟩ := hf.silent
    refine IsTrans.trans _ _ _ (ready_logged hQ ready) ⟨_, hl, ?_⟩
    rw [hc]
    exact hd

theorem step_tracked (hQ : Tracks Q)
    (stores : ∀ i, ComesTo h m s i → i.Stores → AllowsStores Q) :
    Q (m.stepPushes h s) m.toCpu (m.step h s).2.1.toCpu := by
  obtain ⟨ps, hl, hd⟩ := step_logged (p := (s, [])) hQ stores
  rw [List.nil_append] at hl
  rw [stepPushes, hl, (follows_logged h).step m (s, [])]
  exact hd

theorem step_raises (h : Host σ) (m : Machine) (s : σ) :
    Raises (m.stepPushes h s) m.toCpu (m.step h s).2.1.toCpu :=
  step_tracked tracks_raises fun _ _ _ => allowsStores_raises

theorem wake_toCpu (h : Host σ) (m : Machine) (s : σ) : (m.wake h s).2.1.toCpu = m.toCpu := by
  rw [(follows_logged h).wake m (s, [])]
  exact (waited h.logged m (s, [])).silent.1

end Machine

def BelowMark (c d : Cpu) : Prop := ∀ a, d.memory.word a ≠ c.memory.word a → a ≤ d.highWater

def ClearAbove (c : Cpu) : Prop :=
  ∀ a < c.memory.layout.romBase, c.highWater < a → c.memory.word a = 0

theorem ClearAbove.of_cleared {c : Cpu} {memory : Memory} (hc : c.memory = memory.clearWritable) :
    ClearAbove c := by
  intro a ha _
  rw [hc, memory.layout_clearWritable] at ha
  rw [hc, memory.word_clearWritable, if_pos ha]

theorem OnlyPushes.belowMark {ps : List Nat} {c d : Cpu} (h : OnlyPushes ps c d) : BelowMark c d :=
  fun _ ha => h.raises.mem_le (by_contra fun hn => ha (h.confined.word_eq _ hn))

theorem OnlyPushes.clearAbove {ps : List Nat} {c d : Cpu} (h : OnlyPushes ps c d)
    (hc : ClearAbove c) : ClearAbove d := by
  intro a ha hmark
  have zero : c.memory.word a = 0 :=
    hc a (h.confined.layout_eq ▸ ha) (Nat.lt_of_le_of_lt h.raises.le hmark)
  by_contra hne
  exact absurd (h.belowMark a (by rwa [zero])) (Nat.not_le.2 hmark)

namespace Machine
variable {h : Host σ} {m : Machine} {s : σ}

theorem step_onlyPushes (storeless : ∀ i, ComesTo h m s i → ¬ i.Stores) :
    OnlyPushes (m.stepPushes h s) m.toCpu (m.step h s).2.1.toCpu :=
  step_tracked tracks_onlyPushes fun i hi hs => absurd hs (storeless i hi)

/-- A poll changes words only by a delivery, also by one that fails. -/
theorem poll_onlyPushes (h : Host σ) (m : Machine) (s : σ) :
    ∃ ps, OnlyPushes ps m.toCpu (leftBehind ((poll h).run (m, s))).1.toCpu := by
  have hm : (poll h).run (m, s) = _ := Mirrors.poll (follows_logged h).toEchoes m (s, [])
  obtain ⟨ps, -, only⟩ := poll_logged tracks_onlyPushes (h := h) (m, (s, []))
  rw [hm]
  generalize (poll h.logged).run (m, s, []) = r at only
  cases r <;> exact ⟨ps, only⟩

end Machine

namespace Operation

def Resets : Operation → Prop
  | reset _ => True
  | _ => False

def Stores : Operation → Machine → Prop
  | write _ _, _ | writeLong _ _, _ | copy _ _ _, _ => True
  | step h s, m => ∃ i, Machine.ComesTo h m s i ∧ i.Stores
  | _, _ => False

def Storeless : List Operation → Machine → Prop
  | [], _ => True
  | op :: ops, m => ¬ op.Stores m ∧ Storeless ops (op.apply m)

def pushes : Operation → Machine → List Nat
  | step h s, m => m.stepPushes h s
  | _, _ => []

def pushesAll : List Operation → Machine → List Nat
  | [], _ => []
  | op :: ops, m => op.pushes m ++ pushesAll ops (op.apply m)

variable {op : Operation} {ops : List Operation}

theorem raises_apply (hop : ¬ op.Resets) (m : Machine) :
    Raises (op.pushes m) m.toCpu (op.apply m).toCpu := by
  have between (hop : op.Between) (hp : op.pushes m = []) :
      Raises (op.pushes m) m.toCpu (op.apply m).toCpu := by
    obtain ⟨memory, line, happ⟩ := Machine.apply_between hop m
    rw [happ, hp]
    rfl
  cases op with
  | reset entry => exact absurd trivial hop
  | step h s => exact Machine.step_raises h m s
  | wake h s => exact congrArg Cpu.highWater (Machine.wake_toCpu h m s)
  | load | loadRom | write | writeLong | copy | clearWritable | act => exact between trivial rfl

theorem raises_applyAll (hops : ∀ op ∈ ops, ¬ op.Resets) (m : Machine) :
    Raises (pushesAll ops m) m.toCpu (applyAll ops m).toCpu := by
  induction ops generalizing m with
  | nil => exact tracks_raises.nil m.toCpu
  | cons op ops ih =>
    have first := raises_apply (hops op List.mem_cons_self) m
    exact tracks_raises.append first (ih (fun o ho => hops o (List.mem_cons_of_mem op ho)) _)

theorem clearAbove_apply (hop : ¬ op.Resets) {m : Machine} (hs : ¬ op.Stores m)
    (hm : ClearAbove m.toCpu) : ClearAbove (op.apply m).toCpu := by
  have loaded {k : Machine} (hl : SameData m.memory k.memory) (hk : k.highWater = m.highWater) :
      ClearAbove k.toCpu := by
    intro a ha hmark
    rw [hl.layout_eq] at ha
    rw [hl.word_eq a ha]
    exact hm a ha (hk ▸ hmark)
  have mark := raises_apply hop m
  cases op with
  | reset entry => exact absurd trivial hop
  | load bytes => exact loaded (sameData_loads.load bytes m) mark
  | loadRom offset words => exact loaded (sameData_loads.loadRom offset words m) mark
  | write | writeLong | copy => exact absurd trivial hs
  | clearWritable => exact .of_cleared rfl
  | act a => exact hm
  | step h s =>
    exact (Machine.step_onlyPushes fun i hi hst => hs ⟨i, hi, hst⟩).clearAbove hm
  | wake h s => exact Machine.wake_toCpu h m s ▸ hm

theorem clearAbove_applyAll (hops : ∀ op ∈ ops, ¬ op.Resets) {m : Machine}
    (hs : Storeless ops m) (hm : ClearAbove m.toCpu) : ClearAbove (applyAll ops m).toCpu := by
  induction ops generalizing m with
  | nil => exact hm
  | cons op ops ih =>
    have first := clearAbove_apply (hops op List.mem_cons_self) hs.1 hm
    exact ih (fun o ho => hops o (List.mem_cons_of_mem op ho)) hs.2 first

end Operation

/-- Whatever has been done to a machine since a reset: the mark is the highest address that a
successful push has written, it never comes down, and what deliveries change lies at the mark or below
it, as does what a step changes that comes to no instruction that stores. So if nothing has been
stored but by pushes, every writable word above the mark is still zero. -/
theorem mark_bounds_stack (m : Machine) (entry : Nat) {ops : List Operation}
    (since : ∀ op ∈ ops, ¬ op.Resets) :
    let n := m.reset entry
    let k := Operation.applyAll ops n
    k.highWater = (Operation.pushesAll ops n).max?.getD 0 ∧
    (∀ op : Operation, ¬ op.Resets → k.highWater ≤ (op.apply k).highWater) ∧
    (∀ {σ : Type} (h : Host σ) (s : σ),
      BelowMark k.toCpu (leftBehind ((Machine.poll h).run (k, s))).1.toCpu ∧
      ((∀ i, Machine.ComesTo h k s i → ¬ i.Stores) → BelowMark k.toCpu (k.step h s).2.1.toCpu) ∧
      (k.wake h s).2.1.toCpu = k.toCpu) ∧
    (Operation.Storeless ops n →
      ∀ a < k.memory.layout.romBase, k.highWater < a → k.memory.word a = 0) := by
  intro n k
  have raises : Raises (Operation.pushesAll ops n) n.toCpu k.toCpu :=
    Operation.raises_applyAll since n
  refine ⟨?_, fun op hop => (Operation.raises_apply hop k).le, fun h s => ⟨?_, ?_, ?_⟩, ?_⟩
  · rw [raises, List.foldl_max]
    exact Nat.zero_max _
  · obtain ⟨ps, only⟩ := Machine.poll_onlyPushes h k s
    exact only.belowMark
  · exact fun storeless => (Machine.step_onlyPushes storeless).belowMark
  · exact Machine.wake_toCpu h k s
  · exact fun storeless =>
      Operation.clearAbove_applyAll since storeless (.of_cleared rfl)

/-- A long is pushed and popped again. The mark stays where the push has left it. -/
theorem mark_outlives_pop :
    let m := Operation.applyAll [.loadRom 0 [0x011, 1, 2, 0x013]] (.new ⟨16, 0, 0, 16, by decide⟩)
    let ops : List Operation := [.step Host.idle (), .step Host.idle ()]
    let k := Operation.applyAll ops (m.reset 16)
    (∀ op ∈ ops, ¬ op.Resets) ∧ Operation.Storeless ops (m.reset 16) ∧
      Operation.pushesAll ops (m.reset 16) = [5, 6] ∧ k.sp = 4 ∧ k.highWater = 6 ∧
      (∀ a < 16, 6 < a → k.memory.word a = 0) := by
  intro m ops k
  have since : ∀ op ∈ ops, ¬ op.Resets := by
    intro op hop
    simp only [ops, List.mem_cons, List.not_mem_nil, or_false, or_self] at hop
    subst hop
    exact id
  have plain {n : Machine} {i : Instruction} (hc : n.line.closed = false)
      (hp : n.line.pending = none) (hf : Instruction.fetched n.fetch = .ok i) (hi : ¬ i.Stores) :
      ¬ Operation.Stores (.step Host.idle ()) n := by
    rintro ⟨j, comes, stores⟩
    exact hi (comes.eq (Machine.ready_idle hc hp) hf ▸ stores)
  have storeless : Operation.Storeless ops (m.reset 16) :=
    ⟨plain (i := .long .push 0x1002) (by decide +kernel) (by decide +kernel) (by decide +kernel) id,
      plain (i := .plain (.pop .long)) (by decide +kernel) (by decide +kernel) (by decide +kernel) id,
      trivial⟩
  have pushes : Operation.pushesAll ops (m.reset 16) = [5, 6] := by decide +kernel
  obtain ⟨mark, -, -, clear⟩ := mark_bounds_stack m 16 since
  have high : (Operation.applyAll ops (m.reset 16)).highWater = 6 := by
    rw [mark, pushes]
    rfl
  have base : (Operation.applyAll ops (m.reset 16)).memory.layout.romBase = 16 := by
    decide +kernel
  rw [high, base] at clear
  unfold k
  exact ⟨since, storeless, pushes, by decide +kernel, high, clear storeless⟩

end TwelveBit
