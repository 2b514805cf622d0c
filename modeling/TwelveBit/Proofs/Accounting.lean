import TwelveBit.Breakpoints
import TwelveBit.Profile
import TwelveBit.Proofs.Waiting
import TwelveBit.Proofs.Closing
import Mathlib.Algebra.BigOperators.Group.List.Basic
import Mathlib.Algebra.GroupWithZero.Nat
import Mathlib.Data.List.Nodup
/-!
Accounts of execution. However long a machine has run since a reset, and however often it was left
and taken up again, its counters are those of the hooks that were called, and a profile that was
attached since then has counted each instruction once, under its opcode.
-/
namespace TwelveBit
variable {σ τ : Type}

namespace Profile
variable {view : σ → Profile} {h : Host σ}

structure Attached (view : σ → Profile) (h : Host σ) : Prop where
  meanwhile : ∀ a l s, view (h.meanwhile a l s).2 = view s
  beforeFetch : ∀ m s, view (h.beforeFetch m s).2.2 = view s
  observe : ∀ m e s, view (h.observe m e s) = host.observe m e (view s)

theorem attached_host : Attached id host where
  meanwhile _ _ _ := rfl
  beforeFetch _ _ := rfl
  observe _ _ _ := rfl

theorem Attached.pair_right (ha : Attached view h) (g : Host τ) :
    Attached (view ∘ Prod.snd) (g.pair h) where
  meanwhile a _ p := ha.meanwhile a _ p.2
  beforeFetch _ p := ha.beforeFetch _ p.2
  observe m e p := ha.observe m e p.2

theorem lookup_bump (op o : Opcode) (counts : List (Opcode × Nat)) :
    ((bump op counts).lookup o).getD 0 =
      (counts.lookup o).getD 0 + if op = o then 1 else 0 := by
  induction counts with
  | nil =>
    by_cases ho : o = op
    · subst ho
      simp [bump]
    · simp [bump, List.lookup_cons, beq_eq_false_iff_ne.2 ho, Ne.symm ho]
  | cons c counts ih =>
    obtain ⟨p, n⟩ := c
    by_cases hp : p = op
    · subst hp
      by_cases ho : o = p
      · subst ho
        simp [bump]
      · simp [bump, List.lookup_cons, beq_eq_false_iff_ne.2 ho, Ne.symm ho]
    · by_cases ho : o = p
      · subst ho
        simp [bump, hp, Ne.symm hp]
      · simpa [bump, hp, List.lookup_cons, beq_eq_false_iff_ne.2 ho] using ih

theorem count_note (p : Profile) (op o : Opcode) :
    (p.note op).count o = p.count o + if op = o then 1 else 0 := lookup_bump op o p.counts

def noting (p : Profile) (is : List Instruction) : Profile :=
  is.foldl (fun q i => q.note i.opcode) p

theorem noting_append (p : Profile) (is js : List Instruction) :
    p.noting (is ++ js) = (p.noting is).noting js := List.foldl_append

theorem count_noting (p : Profile) (is : List Instruction) (op : Opcode) :
    (p.noting is).count op = p.count op + is.countP (·.opcode = op) := by
  induction is generalizing p with
  | nil => rfl
  | cons i is ih =>
    rw [noting, List.foldl_cons, ← noting, ih, count_note, List.countP_cons]
    simp only [decide_eq_true_eq]
    omega

def Noted (p : Profile) (es : List Happening) (q : Profile) : Prop :=
  q = p.noting (es.filterMap Happening.executed?)

theorem Noted.of_eq {p q : Profile} {es : List Happening} (hq : q = p)
    (he : es.filterMap Happening.executed? = []) : Noted p es q := by
  rw [Noted, he, hq]
  rfl

theorem Noted.append {p q r : Profile} {es fs : List Happening} (hp : Noted p es q)
    (hq : Noted q fs r) : Noted p (es ++ fs) r := by
  rw [Noted, hq, hp, List.filterMap_append, noting_append]

theorem Attached.attests (ha : Attached view h) :
    Machine.Attests h fun p es q => Noted (view p.2) es (view q.2) where
  nil p := .of_eq rfl rfl
  append := Noted.append
  unseen m s c pc b := .of_eq rfl rfl
  meanwhile a m s := .of_eq (ha.meanwhile a m.line s) (Happening.executed_answers _ _)
  asked m s := by
    refine .of_eq (ha.beforeFetch m s) ?_
    rw [List.filterMap_append, Happening.executed_answers]
    rfl
  closed m s hc := .of_eq (ha.observe _ _ _) rfl
  taken m s irq hp := .of_eq (ha.observe _ _ _) rfl
  delivered m s irq c pc hp := .of_eq ((ha.observe _ _ _).trans (ha.observe _ _ _)) rfl
  inner m s e he := by
    cases e with
    | fetched | halted | abandoned => exact .of_eq (ha.observe _ _ _) rfl
    | closed | taken | delivered | executed => exact he.elim
  executed m s i hi := ha.observe _ _ s
  switched m s i on hi := ha.observe _ _ s

theorem sum_single {β : Type} [DecidableEq β] {names : List β} (hd : names.Nodup) {b : β}
    (hb : b ∈ names) : (names.map fun c => if b = c then 1 else 0).sum = 1 := by
  have others (c : β) (hc : c ≠ b) (_ : c ∈ names) : (if b = c then 1 else 0) = 0 :=
    if_neg (Ne.symm hc)
  rw [List.sum_map_eq_nsmul_single b _ others, List.count_eq_one_of_mem hd hb, if_pos rfl]
  rfl

/-- Where every value has one of the names, each element is counted under one name. -/
theorem sum_countP {α β : Type} [DecidableEq β] {names : List β} (hd : names.Nodup)
    (hm : ∀ b, b ∈ names) (f : α → β) (xs : List α) :
    (names.map fun b => xs.countP (f · = b)).sum = xs.length := by
  induction xs with
  | nil => simp
  | cons x xs ih =>
    simp only [List.countP_cons, decide_eq_true_eq, List.sum_map_add, ih, List.length_cons,
      sum_single hd (hm (f x))]

theorem sum_noting (is : List Instruction) :
    (Opcode.all.map (noting {} is).count).sum = is.length := by
  have nodup : Opcode.all.Nodup := by
    have distinct := Opcode.numbers_increase.imp fun h => Nat.ne_of_lt h
    exact (List.pairwise_map.1 distinct).imp fun hne he => hne (congrArg _ he)
  have counts : (noting {} is).count = fun op => is.countP (·.opcode = op) := by
    funext op
    exact (count_noting {} is op).trans (Nat.zero_add _)
  rw [counts]
  exact sum_countP nodup Opcode.mem_all _ _

end Profile

theorem Happening.mem_executed {es : List Happening} {i : Instruction} :
    i ∈ es.filterMap executed? ↔ .told (.executed i) ∈ es := by
  refine ⟨fun hi => ?_, fun hi => List.mem_filterMap.2 ⟨_, hi, rfl⟩⟩
  obtain ⟨e, he, hei⟩ := List.mem_filterMap.1 hi
  cases e with
  | acted | asked | paused => cases hei
  | told e =>
    cases e with
    | executed j =>
      cases hei
      exact he
    | closed | taken | delivered | fetched | halted | abandoned => cases hei

def Operation.Between : Operation → Prop
  | reset _ | step _ _ | wake _ _ => False
  | load _ | loadRom _ _ | write _ _ | writeLong _ _ | copy _ _ _ | clearWritable | act _ => True

namespace Machine
variable {h : Host σ} {m m' k : Machine} {s u : σ} {es : List Happening} {stop : Option Stop}
  {op : Operation} {r : Option Stop × Machine × σ}

/-- The machine takes steps with the same hosts, one after the other and whatever comes of each. One
that is left waiting is woken. Between two steps other things may be done to the machine. -/
inductive Journey (h : Host σ) (m : Machine) (s : σ) :
    List Happening → Option Stop → Machine → σ → Prop
  | start : Journey h m s [] none m s
  | step {es : List Happening} {stop : Option Stop} {k : Machine} {u : σ}
      (before : Journey h m s es stop k u) (returned : stop ≠ some .blocked) :
      Journey h m s (es ++ k.stepHistory h u) (k.step h u).1 (k.step h u).2.1 (k.step h u).2.2
  | wake {es : List Happening} {k : Machine} {u : σ}
      (before : Journey h m s es (some .blocked) k u) :
      Journey h m s (es ++ k.wakeHistory h u) (k.wake h u).1 (k.wake h u).2.1 (k.wake h u).2.2
  | between {es : List Happening} {stop : Option Stop} {k : Machine} {u : σ}
      (before : Journey h m s es stop k u) (op : Operation) (hop : op.Between) :
      Journey h m s (es ++ op.history k) stop (op.apply k) u

theorem Journey.act (before : Journey h m s es stop k u) (a : Line.Action) :
    Journey h m s (es ++ k.line.answers [a]) stop (k.perform [a]) u :=
  before.between (.act a) trivial

/-- A run is a journey, also one that is taken up where another was left. -/
theorem Journey.run {n : Nat} (before : Journey h m s es stop k u)
    (returned : stop ≠ some .blocked) (hn : 0 < n) :
    Journey h m s (es ++ k.runHistory h n u) (k.run h n u).1 (k.run h n u).2.1
      (k.run h n u).2.2 := by
  induction n generalizing es stop k u with
  | zero => exact absurd hn (Nat.lt_irrefl 0)
  | succ n ih =>
    have first := before.step returned
    rw [runHistory_succ, Machine.run, ← List.append_assoc]
    rcases hr : k.step h u with ⟨stop', k', u'⟩
    rw [hr] at first
    cases stop' with
    | some e => exact (List.append_nil _).symm ▸ first
    | none =>
      cases n with
      | zero => exact (List.append_nil _).symm ▸ first
      | succ n => exact ih first (fun hb => by cases hb) (Nat.succ_pos n)

theorem account_between (hop : op.Between) (m : Machine) :
    Account m (op.apply m) (op.history m) := by
  refine Operation.account_apply (fun entry he => ?_) m
  rw [he] at hop
  exact hop

theorem executed_between (hop : op.Between) (m : Machine) :
    (op.history m).filterMap Happening.executed? = [] := by
  cases op with
  | act a => exact Happening.executed_answers m.line [a]
  | load | loadRom | write | writeLong | copy | clearWritable => rfl
  | reset | step | wake => exact hop.elim

/-- Between two steps memory and the line change, and nothing else. -/
theorem apply_between (hop : op.Between) (m : Machine) :
    ∃ memory line, op.apply m = { m with memory := memory, line := line } := by
  cases op with
  | load bytes =>
    obtain ⟨memory, hm⟩ := load_snd bytes m
    exact ⟨memory, m.line, hm⟩
  | loadRom | write | writeLong | copy => exact ⟨_, m.line, onMemory_snd _ m⟩
  | clearWritable | act => exact ⟨_, _, rfl⟩
  | reset | step | wake => exact hop.elim

theorem tallied_between (hop : op.Between) (m : Machine) :
    Tallied m (op.history m) (op.apply m) := by
  obtain ⟨memory, line, happ⟩ := apply_between hop m
  rw [Tallied, executed_between hop, happ]
  rfl

/-- What chronicles attest holds of journeys, if it holds of what is done between two steps. -/
theorem Journey.attested {K : Machine × σ → List Happening → Machine × σ → Prop}
    (hK : Attests h K)
    (between : ∀ (op : Operation) (k : Machine) (u : σ), op.Between →
      K (k, u) (op.history k) (op.apply k, u))
    (j : Journey h m s es stop k u) : K (m, s) es (k, u) := by
  induction j with
  | start => exact hK.nil _
  | step before returned ih => exact hK.append ih (hK.step _ _)
  | wake before ih => exact hK.append ih (hK.wake _ _)
  | between before op hop ih => exact hK.append ih (between op _ _ hop)

theorem Journey.account (j : Journey h m s es stop k u) : Account m k es :=
  j.attested (attests_account h) fun _ k _ hop => account_between hop k

theorem Journey.tallied (j : Journey h m s es stop k u) : Tallied m es k :=
  j.attested (attests_tallied h) fun _ k _ hop => tallied_between hop k

theorem Journey.noted {view : σ → Profile} (ha : Profile.Attached view h)
    (j : Journey h m s es stop k u) : Profile.Noted (view s) es (view u) :=
  j.attested ha.attests fun _ k _ hop => .of_eq rfl (executed_between hop k)

def ComesTo (h : Host σ) (m : Machine) (s : σ) (i : Instruction) : Prop :=
  ∃ k u, Ready h m s k u ∧ Instruction.fetched k.fetch = .ok i

def Completes (h : Host σ) (m : Machine) (s : σ) (stop : Option Stop) : Prop :=
  stop = none ∨ stop = some (.exit .halted) ∨
    stop = some (.exit .stopped) ∧ ComesTo h m s (.system .halt)

inductive Cut (h : Host σ) (m : Machine) (s : σ) (stop : Option Stop) : Prop
  | paused (pc : Nat) (hs : stop = some (.exit (.paused pc)))
  | trapped (t : Trap) (hs : stop = some (.trap t))
  | closed (found : (h.approach .closed m.line s).1.closed = true)
  | stopped (irq : Interrupt) (k : Machine) (u : σ) (taken : Takes h m s irq k u)
      (source : irq.source = .stop)

theorem ComesTo.eq {i j : Instruction} (hc : ComesTo h m s j) (ready : Ready h m s k u)
    (fetched : Instruction.fetched k.fetch = .ok i) : i = j := by
  obtain ⟨k', u', ready', fetched'⟩ := hc
  rw [Ready, ready] at ready'
  cases ready'
  rw [fetched] at fetched'
  cases fetched'
  rfl

/-- A step whose poll ends it comes to no instruction. -/
theorem not_comesTo_of_ended {e : Stop} {q : Machine × σ} {i : Instruction}
    (hp : (poll h).run (m, s) = .error e q) : ¬ ComesTo h m s i := by
  rintro ⟨k, u, ready, -⟩
  rw [Ready, EStateM.run_bind, hp] at ready
  cases ready

theorem not_completes {e : Stop} (halted : e ≠ .exit .halted) (stopped : e ≠ .exit .stopped) :
    ¬ Completes h m s (some e) := by
  rintro (none | hh | ⟨hs, -⟩)
  · cases none
  · exact halted (Option.some.inj hh)
  · exact stopped (Option.some.inj hs)

theorem Waited.counts_iff (hw : Waited h m s r) :
    r.2.1.instructions = m.instructions + 1 ↔ r.1 = none ∨ r.1 = some (.exit .stopped) := by
  cases hw with
  | blocked => simp
  | woken hl hp hk => simp [hk, counted]
  | abandoned hl hp hc hk => simp [hk, counted]

theorem Finished.counts_iff {i : Instruction} (hf : Finished h m s i r) :
    r.2.1.instructions = m.instructions + 1 ↔
      r.1 = none ∨ r.1 = some (.exit .halted) ∨
        r.1 = some (.exit .stopped) ∧ i = .system .halt := by
  cases hf with
  | plainly => simp [counted]
  | switched hi hl hk => simp [hk, counted]
  | halted hl he hk => simp [hk, counted]
  | waited hl he hr =>
    rw [hr.counts_iff]
    cases hr <;> simp

theorem step_counts_iff (h : Host σ) (m : Machine) (s : σ) :
    (m.step h s).2.1.instructions = m.instructions + 1 ↔ Completes h m s (m.step h s).1 := by
  have hs := stepped h m s
  generalize m.step h s = r at hs ⊢
  -- nothing is counted by a step that does not come to the end of an instruction
  have uncounted {n : Nat} {stop : Option Stop} (hn : n = m.instructions)
      (hc : ¬ Completes h m s stop) : n = m.instructions + 1 ↔ Completes h m s stop :=
    ⟨fun h1 => by omega, fun h2 => absurd h2 hc⟩
  cases hs with
  | @ended e k u hp =>
    have same : m.instructions = k.instructions := (keeps_count_poll h).fails _ _ _ hp
    have hp' := polled h m s
    rw [hp] at hp'
    refine uncounted same.symm fun hc => ?_
    obtain none | halted | ⟨-, comes⟩ := hc
    · cases none
    · cases halted
      cases hp'
    · exact not_comesTo_of_ended hp comes
  | @paused k t u acts hp hb =>
    have same : m.instructions = k.instructions := (keeps_count_poll h).of_ok hp
    exact uncounted same.symm (not_completes (fun hh => by cases hh) fun hh => by cases hh)
  | unfetched ready fault | failed ready fetched fault =>
    have same := count_of_ready ready
    exact uncounted same (not_completes (fun hh => by cases hh) fun hh => by cases hh)
  | @ran k u i pc c ready fetched ran r hr =>
    have comes : ComesTo h m s (.system .halt) ↔ i = .system .halt :=
      ⟨fun hc => hc.eq ready fetched, fun hi => ⟨k, u, ready, hi ▸ fetched⟩⟩
    have hf := finished h { k with toCpu := c, pc := pc } (h.observe k (.fetched i) u) i
    rw [hr] at hf
    rw [Completes, comes, ← count_of_ready ready]
    exact hf.counts_iff

theorem Underway.comesTo_of_blocked (hu : Underway h m s es (some .blocked) k) :
    ComesTo h m s (.system .halt) := by
  generalize hb : some Stop.blocked = stop at hu
  induction hu with
  | begun => exact halt_of_blocked hb.symm
  | woken g t waits ih => exact ih rfl

theorem Underway.counts_iff (hu : Underway h m s es stop m') :
    m'.instructions = m.instructions + 1 ↔ Completes h m s stop := by
  cases hu with
  | begun => exact step_counts_iff h m s
  | @woken τ es k g t waits =>
    have comes := waits.comesTo_of_blocked
    have hw := waited g k t
    generalize k.wake g t = r at hw ⊢
    rw [← waits.countsOne.waits rfl, hw.counts_iff, Completes]
    cases hw <;> simp [comes]

/-- The instruction is told exactly where the step is carried through. -/
theorem Underway.executes_iff (hu : Underway h m s es stop m') :
    (∃ i, .told (.executed i) ∈ es) ↔ Completes h m s stop := by
  have tallied : m'.instructions = m.instructions + (es.filterMap Happening.executed?).length :=
    hu.tallied
  have le := hu.executed_le
  rw [← hu.counts_iff, tallied, Nat.add_left_cancel_iff]
  constructor
  · rintro ⟨i, hi⟩
    have some_told := List.length_pos_of_mem (Happening.mem_executed.2 hi)
    omega
  · intro one
    obtain ⟨i, hi⟩ := List.exists_mem_of_length_pos (one ▸ Nat.one_pos)
    exact ⟨i, Happening.mem_executed.1 hi⟩

theorem Underway.not_completes_of_ended {q : Machine × σ} (hu : Underway h m s es stop m')
    (hp : (poll h).run (m, s) = .error (.exit .stopped) q) : ¬ Completes h m s stop := by
  have comes_not : ¬ ComesTo h m s (.system .halt) := not_comesTo_of_ended hp
  have ended : (m.step h s).1 = some (.exit .stopped) := by
    rw [step_eq, settle_of_error hp]
  intro hc
  cases hu with
  | begun =>
    rw [Completes, ended] at hc
    obtain none | halted | ⟨-, comes⟩ := hc
    · cases none
    · cases halted
    · exact comes_not comes
  | woken g t waits => exact comes_not waits.comesTo_of_blocked

theorem Underway.not_completes_of_cut (hu : Underway h m s es stop m') (cut : Cut h m s stop) :
    ¬ Completes h m s stop := by
  cases cut with
  | paused pc hs | trapped t hs =>
    subst hs
    exact not_completes (fun hh => by cases hh) fun hh => by cases hh
  | closed found =>
    rcases hl : h.approach .closed m.line s with ⟨l, t⟩
    rw [hl] at found
    exact hu.not_completes_of_ended (run_poll_of_closed hl found)
  | stopped irq k u taken source =>
    cases taken with
    | intro hl hc hk hp =>
      have hrun := run_poll_of_open hl hc hk
      have hv (l : Layout) : irq.source.vector? l = none := Source.vector?_eq_none_iff.2 source
      rw [hp] at hrun
      simp only [receive, EStateM.run_bind, run_tell, run_ask, hv] at hrun
      exact hu.not_completes_of_ended hrun

def DeliversFirst (es : List Happening) : Prop :=
  ∃ first rest, es = first ++ rest ∧ first.filterMap Happening.executed? = [] ∧
    rest.filterMap Happening.delivered? = []

theorem Course.deliversFirst {r : Option Stop × Machine × σ × List Happening}
    (hr : Course h m s r) : DeliversFirst r.2.2.2 := by
  have unexecuted (acts : List Line.Action) {fs : List Happening}
      (hf : fs.filterMap Happening.executed? = []) :
      (m.line.answers acts ++ fs).filterMap Happening.executed? = [] := by
    rw [List.filterMap_append, Happening.executed_answers, hf]
    rfl
  cases hr with
  | closed | stopped | trapped => exact ⟨_, [], (List.append_nil _).symm, unexecuted _ rfl, rfl⟩
  | idle hp rest =>
    obtain ⟨fs, he, quiet, -⟩ := rest
    exact ⟨_, fs, he, Happening.executed_answers _ _, Happening.delivered_of_quiet quiet⟩
  | delivered hp source entered hl hi rest =>
    obtain ⟨fs, he, quiet, -⟩ := rest
    exact ⟨_, fs, he, unexecuted _ rfl, Happening.delivered_of_quiet quiet⟩

theorem Underway.deliversFirst (hu : Underway h m s es stop m') : DeliversFirst es := by
  induction hu with
  | begun => exact (step_course h m s).deliversFirst
  | @woken τ es k g t waits ih =>
    obtain ⟨first, rest, rfl, unexecuted, undelivered⟩ := ih
    refine ⟨first, rest ++ k.wakeHistory g t, List.append_assoc _ _ _, unexecuted, ?_⟩
    rw [List.filterMap_append, undelivered,
      Happening.delivered_of_quiet fun _ he => quiet_of_mem_wakeHistory he]
    rfl

structure Audited (p : Profile) (k : Machine) (es : List Happening) : Prop where
  instructions : k.instructions = (es.filterMap Happening.executed?).length
  profiled : (Opcode.all.map p.count).sum = (es.filterMap Happening.executed?).length
  each : ∀ op, p.count op = (es.filterMap Happening.executed?).countP (·.opcode = op)
  interrupts : k.interrupts = (es.filterMap Happening.delivered?).length

theorem Journey.audited {view : σ → Profile} {entry : Nat} (ha : Profile.Attached view h)
    (fresh : view s = {}) (j : Journey h (m.reset entry) s es stop k u) :
    Audited (view u) k es := by
  have noted : view u = Profile.noting {} (es.filterMap Happening.executed?) := fresh ▸ j.noted ha
  exact {
    instructions := Eq.trans j.tallied (Nat.zero_add _)
    profiled := noted ▸ Profile.sum_noting _
    each := fun op => noted ▸ (Profile.count_noting {} _ op).trans (Nat.zero_add _)
    interrupts := j.account.interrupts.trans (Nat.zero_add _) }

structure Orderly (h : Host σ) (m : Machine) (s : σ) (es : List Happening) (stop : Option Stop) :
    Prop where
  deliveries : (es.filterMap Happening.delivered?).length ≤ 1
  instructions : (es.filterMap Happening.executed?).length ≤ 1
  order : DeliversFirst es
  executes : (∃ i, .told (.executed i) ∈ es) ↔ Completes h m s stop
  cut : Cut h m s stop → es.filterMap Happening.executed? = []

theorem Underway.orderly (hu : Underway h m s es stop m') : Orderly h m s es stop where
  deliveries := hu.delivered_le
  instructions := hu.executed_le
  order := hu.deliversFirst
  executes := hu.executes_iff
  cut := fun cut => List.eq_nil_iff_forall_not_mem.2 fun i hi =>
    hu.not_completes_of_cut cut (hu.executes_iff.1 ⟨i, Happening.mem_executed.1 hi⟩)

end Machine

/-- However a machine goes on after a reset, with runs of any length, pauses, traps and waits, and
whatever is done to it in between: it has counted the instructions and the deliveries that the hosts
were told of, and a profile among the hosts has counted the same instructions, each under its
opcode. A step comes to one delivery at most and then to one instruction at most. It comes to an
instruction exactly if it returns for another step to follow, or in a `hlt`. -/
theorem execution_is_accounted_for {σ : Type} (h : Host σ) :
    (∀ (m : Machine) (entry : Nat) (s u : σ) (es : List Happening) (stop : Option Stop)
      (k : Machine), Machine.Journey h (m.reset entry) s es stop k u →
      (∀ view : σ → Profile, Profile.Attached view h → view s = {} →
        Machine.Audited (view u) k es) ∧
      (stop ≠ some .blocked → ∀ n > 0, let r := k.run h n u
        Machine.Journey h (m.reset entry) s (es ++ k.runHistory h n u) r.1 r.2.1 r.2.2)) ∧
    ∀ (m : Machine) (s : σ) (es : List Happening) (stop : Option Stop) (m' : Machine),
      Machine.Underway h m s es stop m' → Machine.Orderly h m s es stop := by
  refine ⟨fun m entry s u es stop k j => ⟨fun view attached fresh => j.audited attached fresh,
    fun returned n hn => j.run returned hn⟩, fun m s es stop m' underway => underway.orderly⟩

/-- A timer is delivered in a step that is paused at the handler. The run is taken up again, and
`hlt` ends it after requests have been disabled from outside. -/
theorem paused_run_is_audited :
    let hosts := Breakpoints.host.pair Profile.host
    let m := (Machine.new ⟨16, 0, 0, 32, by decide⟩).onMemory (Memory.loadRom 0 [0, 0, 0, 0, 0, 1])
    let n := ((m.2.reset 16).perform [.setEnabled true]).perform [.request .timer]
    let r := n.run hosts 4 (.ofList [20], {})
    let k := r.2.1.perform [.setEnabled false]
    let r' := k.run hosts 4 r.2.2
    r.1 = some (.exit (.paused 20)) ∧ r'.1 = some (.exit .halted) ∧
      r'.2.1.interrupts = 1 ∧ r'.2.1.instructions = 2 ∧
      (Opcode.all.map r'.2.2.2.count).sum = 2 ∧ r'.2.2.2.count (.system .halt) = 1 ∧
      (n.stepHistory hosts (.ofList [20], {})).filterMap Happening.executed? = [] := by
  intro hosts m n r k r'
  have attached : Profile.Attached Prod.snd hosts :=
    Profile.attached_host.pair_right Breakpoints.host
  have paused : r.1 = some (.exit (.paused 20)) := by decide +kernel
  obtain ⟨accounted, orderly⟩ := execution_is_accounted_for hosts
  have begins := (Machine.Journey.start (h := hosts) (m := m.2.reset 16)
    (s := (.ofList [20], {}))).act (.setEnabled true)
  have first := (begins.act (.request .timer)).run (fun hb => by cases hb) (by decide : 0 < 4)
  have returned : r.1 ≠ some .blocked := by
    rw [paused]
    exact fun hb => by cases hb
  have second := (first.act (.setEnabled false)).run returned (by decide : 0 < 4)
  obtain ⟨audited, -⟩ := accounted m.2 16 _ _ _ _ _ second
  have fresh : Prod.snd (Breakpoints.ofList [20], ({} : Profile)) = {} := rfl
  have audit := audited Prod.snd attached fresh
  have instructions : r'.2.1.instructions = 2 := by decide +kernel
  refine ⟨paused, by decide +kernel, by decide +kernel, instructions, ?_, by decide +kernel, ?_⟩
  · rw [audit.profiled, ← audit.instructions, instructions]
  · exact (orderly n _ _ _ _ .begun).cut (.paused 20 (by decide +kernel))

end TwelveBit
