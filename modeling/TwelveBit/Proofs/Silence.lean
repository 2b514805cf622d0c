import TwelveBit.Proofs.Attestation
import TwelveBit.Proofs.LineHistory
import TwelveBit.Proofs.Operation
import TwelveBit.Proofs.Runs
import TwelveBit.Profile
/-!
Silence. While requests are disabled, hosts can post as many as they like: a machine with an open
and empty line goes on as if there were none. All that they change is how many were missed.
-/
namespace TwelveBit
variable {σ τ ω : Type}

namespace Line
variable {l : Line} {acts : List Action}

def Action.Posts : Action → Prop
  | .request _ => True
  | .setEnabled _ | .close => False

structure Silent (l : Line) : Prop where
  disabled : l.enabled = false
  opened : l.closed = false
  empty : l.pending = none

def missing (n : Nat) (l : Line) : Line := { l with missed := l.missed + n }

theorem Silent.missing (hl : l.Silent) (n : Nat) : (l.missing n).Silent :=
  ⟨hl.disabled, hl.opened, hl.empty⟩

theorem missing_missing (n k : Nat) (l : Line) : (l.missing n).missing k = l.missing (n + k) := by
  simp only [Line.missing, Nat.add_assoc]

theorem Silent.perform (hl : l.Silent) {a : Action} (ha : a.Posts) : l.perform a = l.missing 1 := by
  cases a with
  | setEnabled | close => exact ha.elim
  | request irq =>
    have refused : l.accepting = false := by simp only [accepting, hl.disabled, Bool.false_and]
    simp only [Line.perform, request, refused, Bool.false_eq_true, if_false, Line.missing]

theorem Silent.performAll (hl : l.Silent) (ha : ∀ a ∈ acts, a.Posts) :
    l.performAll acts = l.missing acts.length := by
  induction acts generalizing l with
  | nil => rfl
  | cons a acts ih =>
    have first := hl.perform (ha a List.mem_cons_self)
    have others := ih (hl.missing 1) fun b hb => ha b (List.mem_cons_of_mem a hb)
    rw [missing_missing, Nat.add_comm, ← first] at others
    exact others

theorem Silent.after (hl : l.Silent) (ha : ∀ a ∈ acts, a.Posts) : (l.performAll acts).Silent := by
  rw [hl.performAll ha]
  exact hl.missing _

theorem Silent.setEnabled (hl : l.Silent) : l.setEnabled false = l := by
  obtain ⟨enabled, closed, pending, missed⟩ := l
  obtain rfl : enabled = false := hl.disabled
  rfl

end Line

abbrev Enables (es : List Happening) : Prop := .told (.executed (.system .enable)) ∈ es

theorem enables_append (es fs : List Happening) : Enables (es ++ fs) ↔ Enables es ∨ Enables fs :=
  List.mem_append

namespace Happening

def Harmless : Happening → Prop
  | .acted a _ => a.Posts
  | .told (.executed i) => i ≠ .system .enable
  | .told .closed | .told (.taken _) | .told (.delivered _ _) => False
  | .told (.fetched _) | .told .halted | .told .abandoned | .asked _ _ | .paused _ => True

theorem harmless_of_executed {i : Instruction} (hno : ¬ Enables [.told (.executed i)]) :
    ∀ e ∈ [Happening.told (.executed i)], e.Harmless := by
  intro e he
  cases List.mem_singleton.1 he
  exact fun hi => hno (hi ▸ List.mem_singleton_self _)

end Happening

namespace Line
variable {l : Line} {es : List Happening}

theorem Silent.follow (hl : l.Silent) {e : Happening} (he : e.Harmless) :
    l.follow e = l.missing ([e].countP Happening.posted) := by
  cases e with
  | asked | paused => rfl
  | acted a reply =>
    have first := hl.perform he
    cases a with
    | setEnabled | close => exact he.elim
    | request irq => exact first
  | told e =>
    cases e with
    | closed | taken | delivered => exact he.elim
    | fetched | halted | abandoned => rfl
    | executed i =>
      cases i with
      | plain | word | long | jump => rfl
      | system op =>
        cases op with
        | nop | halt => rfl
        | disable => exact hl.setEnabled
        | enable => exact absurd rfl he

theorem Silent.followAll (hl : l.Silent) (hes : ∀ e ∈ es, e.Harmless) :
    l.followAll es = l.missing (es.countP Happening.posted) := by
  induction es generalizing l with
  | nil => rfl
  | cons e es ih =>
    have first := hl.follow (hes e List.mem_cons_self)
    have others := ih (hl.missing ([e].countP Happening.posted)) fun f hf =>
      hes f (List.mem_cons_of_mem e hf)
    rw [missing_missing, ← List.countP_append, ← first] at others
    exact others

theorem harmless_of_mem_answers {acts : List Action} (ha : ∀ a ∈ acts, a.Posts) {e : Happening}
    (he : e ∈ l.answers acts) : e.Harmless := by
  obtain ⟨a, hmem, reply, rfl⟩ := acted_of_mem_answers he
  exact ha a hmem

theorem filter_answers {acts : List Action} (ha : ∀ a ∈ acts, a.Posts) :
    (l.answers acts).filter (!·.posted) = [] := by
  refine List.filter_eq_nil_iff.2 fun e he => ?_
  obtain ⟨a, hmem, reply, rfl⟩ := acted_of_mem_answers he
  have posts := ha a hmem
  cases a with
  | request irq => exact Bool.false_ne_true
  | setEnabled | close => exact posts.elim

end Line

def Machine.hushed (m : Machine) : Machine := { m with line := { m.line with missed := 0 } }

def Machine.missing (n : Nat) (m : Machine) : Machine := { m with line := m.line.missing n }

namespace Machine
variable {view : τ → ω} {o : Host ω} {g : Host τ} {m k : Machine} {t u : τ} {i : Instruction}

/-- The first host does what the second one does, seen through `view`, but for the requests that
the second one posts. It does not see how many requests were missed. -/
structure Mutes (view : τ → ω) (o : Host ω) (g : Host τ) : Prop where
  posts : ∀ a l t, ∀ act ∈ (g.meanwhile a l t).1, act.Posts
  posts_beforeFetch : ∀ m t, ∀ act ∈ (g.beforeFetch m t).2.1, act.Posts
  meanwhile : ∀ a l l' t, o.meanwhile a l' (view t) = ([], view (g.meanwhile a l t).2)
  beforeFetch : ∀ m t,
    o.beforeFetch m.hushed (view t) = ((g.beforeFetch m t).1, [], view (g.beforeFetch m t).2.2)
  observe : ∀ m e t, o.observe m.hushed e (view t) = view (g.observe m e t)

def hush (view : τ → ω) (r : Option Stop × Machine × τ) : Option Stop × Machine × ω :=
  (r.1, r.2.1.hushed, view r.2.2)

namespace Mutes
variable (hm : Mutes view o g)
include hm

theorem approach {l : Line} (hl : l.Silent) (a : Access) (t : τ) :
    ∃ n u, g.approach a l t = (l.missing n, u) ∧ ∀ l', o.approach a l' (view t) = (l', view u) := by
  refine ⟨(g.meanwhile a l t).1.length, (g.meanwhile a l t).2, ?_, fun l' => ?_⟩
  · exact Prod.ext (hl.performAll (hm.posts a l t)) rfl
  · rw [Host.approach, hm.meanwhile a l l' t]
    rfl

/-- A poll finds nothing. -/
theorem poll (hl : m.line.Silent) (t : τ) :
    ∃ n u, (Machine.poll g).run (m, t) = .ok () (m.missing n, u) ∧
      (Machine.poll o).run (m.hushed, view t) = .ok () (m.hushed, view u) := by
  obtain ⟨n, u, hn, hu⟩ := hm.approach hl .closed t
  obtain ⟨n', u', hn', hu'⟩ := hm.approach (hl.missing n) .take u
  refine ⟨n + n', u', ?_, ?_⟩
  · rw [run_poll_of_open hn hl.opened hn']
    simp only [Line.missing, hl.empty, missing, Nat.add_assoc]
  · rw [run_poll_of_open (hu m.hushed.line) hl.opened (hu' m.hushed.line)]
    simp only [hushed, hl.empty]

theorem finishing (hl : m.line.Silent) (i : Instruction) (t : τ) :
    settle (Machine.finishing o i) m.hushed (view t) =
      hush view (settle (Machine.finishing g i) m t) := by
  by_cases hi : i = .system .halt
  · subst hi
    obtain ⟨n, u, hn, hu⟩ := hm.approach hl .enabled t
    have off : ¬ (m.line.missing n).enabled = true := Bool.eq_false_iff.1 hl.disabled
    have off' : ¬ m.hushed.line.enabled = true := off
    rw [settle_finishing_halt hn, settle_finishing_halt (hu m.hushed.line)]
    dsimp only
    rw [if_neg off, if_neg off']
    let k : Machine := { m with halted := true, line := m.line.missing n }
    have told := hm.observe k .halted u
    have counted := hm.observe k.counted (.executed (.system .halt)) (g.observe k .halted u)
    rw [← told] at counted
    exact Prod.ext rfl (Prod.ext rfl counted)
  · cases hs : i.switch? with
    | none =>
      rw [settle_finishing_of_plain hs hi, settle_finishing_of_plain hs hi]
      exact Prod.ext rfl (Prod.ext rfl (hm.observe m.counted (.executed i) t))
    | some on =>
      obtain ⟨n, u, hn, hu⟩ := hm.approach hl .setEnabled t
      rw [settle_finishing_of_switch hs hn, settle_finishing_of_switch hs (hu m.hushed.line)]
      let k : Machine := { m with line := (m.line.missing n).setEnabled on }
      exact Prod.ext rfl (Prod.ext rfl (hm.observe k.counted (.executed i) u))

theorem carryOut (hl : m.line.Silent) (t : τ) :
    settle (Machine.carryOut o) m.hushed (view t) =
      hush view (settle (Machine.carryOut g) m t) := by
  have same : m.hushed.fetch = m.fetch := rfl
  rw [settle_eq, settle_eq, run_carryOut, run_carryOut, same]
  cases hi : Instruction.fetched m.fetch with
  | error f => rfl
  | ok i =>
    have told := hm.observe m (.fetched i) t
    have runs : (i.run (toLong (m.hushed.pc + i.size))).run m.hushed.toCpu =
        (i.run (toLong (m.pc + i.size))).run m.toCpu := rfl
    simp only [runs]
    cases hx : (i.run (toLong (m.pc + i.size))).run m.toCpu with
    | error f c => exact Prod.ext rfl (Prod.ext rfl told)
    | ok pc c =>
      have rest := hm.finishing (m := { m with toCpu := c, pc := pc }) hl i
        (g.observe m (.fetched i) t)
      rw [← told] at rest
      exact rest

/-- Both hosts are asked at the same place and give the same answer. -/
theorem rest (hl : m.line.Silent) (t : τ) :
    settle (Machine.consult o >>= fun _ => Machine.carryOut o) m.hushed (view t) =
      hush view (settle (Machine.consult g >>= fun _ => Machine.carryOut g) m t) := by
  have posts := hm.posts_beforeFetch m t
  have asked := run_consult g m t
  have asked' := run_consult o m.hushed (view t)
  rw [hm.beforeFetch m t] at asked'
  rcases hb : g.beforeFetch m t with ⟨flow, acts, u⟩
  rw [hb] at posts asked asked'
  have hk : m.perform acts = m.missing acts.length := congrArg (fun l => { m with line := l })
    (hl.performAll posts)
  cases flow with
  | pause =>
    rw [settle_of_error asked, settle_of_error asked', hk]
    rfl
  | proceed =>
    rw [settle_of_ok asked, settle_of_ok asked', hk]
    exact hm.carryOut (m := m.missing acts.length) (hl.missing _) u

/-- A step on a silent line goes as if nobody had posted anything. -/
theorem step (hl : m.line.Silent) (t : τ) :
    m.hushed.step o (view t) = hush view (m.step g t) := by
  obtain ⟨n, u, hpoll, hpoll'⟩ := hm.poll hl t
  rw [step_eq, step_eq, settle_of_ok hpoll, settle_of_ok hpoll']
  exact hm.rest (m := m.missing n) (hl.missing n) u

/-- As long as nobody enables requests, only harmless things happen on a silent line. -/
theorem attests : Attests g fun p es q =>
    p.1.line.Silent → ¬ Enables es →
      q.1.line = p.1.line.followAll es ∧ ∀ e ∈ es, e.Harmless where
  nil p _ _ := ⟨rfl, fun e he => absurd he List.not_mem_nil⟩
  append := by
    intro p q r es fs first second hl hno
    rw [enables_append, not_or] at hno
    obtain ⟨line, harmless⟩ := first hl hno.1
    have hq : q.1.line.Silent := by
      rw [line, hl.followAll harmless]
      exact hl.missing _
    obtain ⟨line', harmless'⟩ := second hq hno.2
    refine ⟨by rw [line', line, Line.followAll_append], fun e he => ?_⟩
    exact (List.mem_append.1 he).elim (harmless e) (harmless' e)
  unseen m s c pc b _ _ := ⟨rfl, fun e he => absurd he List.not_mem_nil⟩
  meanwhile a m s _ _ :=
    ⟨(m.line.followAll_answers _).symm, fun e => Line.harmless_of_mem_answers (hm.posts a m.line s)⟩
  asked m s _ _ := by
    refine ⟨?_, fun e he => ?_⟩
    · rw [Line.followAll_append, Line.followAll_answers]
      rfl
    · obtain he | he := List.mem_append.1 he
      · exact Line.harmless_of_mem_answers (hm.posts_beforeFetch m s) he
      · cases List.mem_singleton.1 he
        trivial
  closed m s hc hl := absurd hc (Bool.eq_false_iff.1 hl.opened)
  taken m s irq hp hl := by
    rw [hl.empty] at hp
    cases hp
  delivered m s irq c pc hp hl := by
    rw [hl.empty] at hp
    cases hp
  inner m s e he _ _ := by
    cases e with
    | closed | taken | delivered | executed => exact he.elim
    | fetched | halted | abandoned =>
      refine ⟨rfl, fun f hf => ?_⟩
      cases List.mem_singleton.1 hf
      trivial
  executed m s i hi _ hno := by
    refine ⟨?_, Happening.harmless_of_executed hno⟩
    simp only [Line.followAll, List.foldl_cons, List.foldl_nil, Line.follow, hi]
    rfl
  switched m s i on hi _ hno := by
    refine ⟨?_, Happening.harmless_of_executed hno⟩
    simp only [Line.followAll, List.foldl_cons, List.foldl_nil, Line.follow, hi]
    rfl

/-- Chronicles differ in the requests only. -/
theorem chronicled :
    Mutes (fun p => (view p.1, p.2.filter (!·.posted))) o.chronicled g.chronicled where
  posts a l := fun (t, _) => hm.posts a l t
  posts_beforeFetch m := fun (t, _) => hm.posts_beforeFetch m t
  meanwhile a l l' := by
    intro (t, es)
    have none_posted := Line.filter_answers (l := l) (hm.posts a l t)
    simp only [Host.chronicled, hm.meanwhile a l l' t, Line.answers, List.append_nil,
      List.filter_append, none_posted]
  beforeFetch m := by
    intro (t, es)
    have none_posted := Line.filter_answers (l := m.line) (hm.posts_beforeFetch m t)
    simp only [Host.chronicled, hm.beforeFetch m t, Line.answers, List.append_nil,
      List.filter_append, none_posted]
    rfl
  observe m e := by
    intro (t, es)
    simp only [Host.chronicled, hm.observe m e t, List.filter_append]
    rfl

theorem silent_of_step (hl : m.line.Silent)
    (hno : ¬ Enables (m.stepHistory g t)) :
    (m.step g t).2.1.line.Silent := by
  obtain ⟨line, harmless⟩ := hm.attests.step m t hl hno
  rw [line, hl.followAll harmless]
  exact hl.missing _

/-- A `hlt` ends the run. -/
theorem step_of_halt (hl : m.line.Silent) (ready : Ready g m t k u)
    (fetched : Instruction.fetched k.fetch = .ok (.system .halt)) :
    (m.step g t).1 = some (.exit .halted) := by
  have silent : k.line.Silent := by
    obtain ⟨_, ⟨n, v⟩, hpoll, hcons⟩ := ok_of_bind ready
    obtain ⟨c, w, hpoll', -⟩ := hm.poll hl t
    rw [hpoll'] at hpoll
    cases hpoll
    have left := leftBehind_consult g (m.missing c) v
    rw [hcons] at left
    cases left
    exact Line.Silent.after (hl.missing c) (hm.posts_beforeFetch _ _)
  obtain ⟨c, w, hn, -⟩ := hm.approach silent .enabled (g.observe k (.fetched (.system .halt)) u)
  have off : ¬ (k.line.missing c).enabled = true := Bool.eq_false_iff.1 silent.disabled
  rw [step_of_system ready fetched,
    settle_finishing_halt (m := { k with pc := toLong (k.pc + 1) }) hn]
  dsimp only
  rw [if_neg off]

theorem unblocked_of_step (hl : m.line.Silent) : (m.step g t).1 ≠ some .blocked := by
  intro hb
  obtain ⟨k, u, ready, fetched⟩ := halt_of_blocked hb
  rw [hm.step_of_halt hl ready fetched] at hb
  cases hb

/-- As long as nobody enables requests, a run goes as if nobody had posted anything, and it is never
left waiting. -/
theorem run (n : Nat) (hl : m.line.Silent)
    (hno : ¬ Enables (m.runHistory g n t)) :
    Machine.run o n m.hushed (view t) = hush view (Machine.run g n m t) ∧
      (Machine.run g n m t).1 ≠ some .blocked := by
  induction n generalizing m t with
  | zero => exact ⟨rfl, fun hb => by cases hb⟩
  | succ n ih =>
    rw [runHistory_succ, enables_append, not_or] at hno
    have silent := hm.silent_of_step hl hno.1
    have unblocked := hm.unblocked_of_step hl (t := t)
    simp only [Machine.run, hm.step hl t]
    rcases hr : m.step g t with ⟨stop, k, u⟩
    rw [hr] at hno silent unblocked
    cases stop with
    | some stop => exact ⟨rfl, unblocked⟩
    | none => exact ih silent hno.2

theorem stepHistory (hl : m.line.Silent) (t : τ) :
    m.hushed.stepHistory o (view t) = (m.stepHistory g t).filter (!·.posted) :=
  congrArg (fun r => r.2.2.2) (hm.chronicled.step hl (t, []))

/-- Whether requests are enabled does not depend on what is posted. -/
theorem enables_iff (n : Nat) (hl : m.line.Silent) :
    Enables (m.runHistory g n t) ↔ Enables (m.hushed.runHistory o n (view t)) := by
  induction n generalizing m t with
  | zero => exact Iff.rfl
  | succ n ih =>
    have first : Enables (m.stepHistory g t) ↔ Enables (m.hushed.stepHistory o (view t)) := by
      rw [hm.stepHistory hl, Enables, Enables, List.mem_filter]
      exact (and_iff_left rfl).symm
    rw [runHistory_succ, runHistory_succ, enables_append, enables_append, ← first]
    by_cases hf : Enables (m.stepHistory g t)
    · exact iff_of_true (Or.inl hf) (Or.inl hf)
    · have silent := hm.silent_of_step hl hf
      refine or_congr Iff.rfl ?_
      rw [hm.step hl t]
      rcases hr : m.step g t with ⟨stop, k, u⟩
      rw [hr] at silent
      cases stop with
      | some stop => exact Iff.rfl
      | none => exact ih silent

theorem history (n : Nat) (hl : m.line.Silent)
    (hno : ¬ Enables (m.runHistory g n t)) :
    m.hushed.runHistory o n (view t) = (m.runHistory g n t).filter (!·.posted) := by
  rw [← runHistory_chronicled g n m t []] at hno
  have hr := (hm.chronicled.run (t := (t, [])) n hl hno).1
  exact congrArg (fun r => r.2.2.2) hr

end Mutes

structure Undisturbed (h : Host σ) (n : Nat) (m : Machine) (s : σ) : Prop where
  line : (m.run h n s).2.1.line = m.line.missing ((m.runHistory h n s).countP Happening.posted)
  empty : ∀ pre, pre <+: m.runHistory h n s → (m.line.followAll pre).pending = none
  undelivered : ∀ irq ret, .told (.delivered irq ret) ∉ m.runHistory h n s
  unblocked : (m.run h n s).1 ≠ some .blocked
  halts : ∀ k u, (m.run h n s).1 = none → Ready h (m.run h n s).2.1 (m.run h n s).2.2 k u →
    Instruction.fetched k.fetch = .ok (.system .halt) →
    (m.run h (n + 1) s).1 = some (.exit .halted)

theorem Mutes.undisturbed (hm : Mutes view o g) (n : Nat) (hl : m.line.Silent)
    (hno : ¬ Enables (m.runHistory g n t)) : Undisturbed g n m t := by
  obtain ⟨line, harmless⟩ := hm.attests.run n m t hl hno
  have missed := line.trans (hl.followAll harmless)
  constructor
  case line => exact missed
  case empty =>
    intro pre hpre
    rw [hl.followAll fun e he => harmless e (hpre.subset he)]
    exact hl.empty
  case undelivered => exact fun irq ret he => harmless _ he
  case unblocked => exact (hm.run n hl hno).2
  case halts =>
    intro k u hnone ready fetched
    have silent : (m.run g n t).2.1.line.Silent := by
      rw [missed]
      exact hl.missing _
    have last := hm.step_of_halt silent ready fetched
    rw [run_add]
    rcases hr : m.run g n t with ⟨stop, k', u'⟩
    rw [hr] at hnone last
    cases hnone
    dsimp only at last ⊢
    simp only [Machine.run]
    rcases hs : k'.step g u' with ⟨stop, k'', u''⟩
    rw [hs] at last
    cases last
    rfl

end Machine

namespace Host
variable {h : Host σ} {o : Host ω}

structure Posts (h : Host σ) : Prop where
  meanwhile : ∀ a l s, ∀ act ∈ (h.meanwhile a l s).1, act.Posts
  beforeFetch : ∀ m s, ∀ act ∈ (h.beforeFetch m s).2.1, act.Posts
  proceeds : ∀ m s, (h.beforeFetch m s).1 = .proceed

structure Watches (o : Host ω) : Prop where
  meanwhile : ∀ a l t, o.meanwhile a l t = ([], t)
  alone : ∀ m t, (o.beforeFetch m t).2.1 = []
  beforeFetch : ∀ m t, o.beforeFetch m.hushed t = o.beforeFetch m t
  observe : ∀ m e t, o.observe m.hushed e t = o.observe m e t

theorem Posts.pair {g : Host τ} (hh : h.Posts) (hg : g.Posts) : (h.pair g).Posts where
  meanwhile a l := fun (s, t) act hact =>
    (List.mem_append.1 hact).elim (hh.meanwhile _ _ _ act) (hg.meanwhile _ _ _ act)
  beforeFetch m := fun (s, t) act hact =>
    (List.mem_append.1 hact).elim (hh.beforeFetch _ _ act) (hg.beforeFetch _ _ act)
  proceeds m := fun (s, t) => by
    show Flow.and _ _ = _
    rw [hh.proceeds, hg.proceeds]
    rfl

/-- Beside a host that only posts, a watcher sees what it sees alone. -/
theorem Watches.mutes (ho : o.Watches) (hh : h.Posts) :
    Machine.Mutes Prod.fst o (o.pair h) where
  posts a l := fun (t, s) act hact => by
    simp only [pair, ho.meanwhile, List.nil_append] at hact
    exact hh.meanwhile _ _ _ act hact
  posts_beforeFetch m := fun (t, s) act hact => by
    simp only [pair, ho.alone, List.nil_append] at hact
    exact hh.beforeFetch _ _ act hact
  meanwhile a l l' := fun (t, s) => by simp only [pair, ho.meanwhile]
  beforeFetch m := fun (t, s) => by
    have alone := ho.alone m t
    show _ = ((o.beforeFetch m t).1.and (h.beforeFetch _ s).1, [], (o.beforeFetch m t).2.2)
    rw [ho.beforeFetch, hh.proceeds]
    rcases hb : o.beforeFetch m t with ⟨flow, acts, u⟩
    rw [hb] at alone
    cases alone
    cases flow <;> rfl
  observe m e := fun (t, s) => ho.observe m e t

end Host

/-- While requests are disabled, posting them interferes with nothing. Two machines that differ in
nothing but how many requests they have missed, each with an open and empty line and with hosts
that post what they like, run alike for as long as the program does not enable requests: the same
happens in both but for the requests, and the same comes of it. -/
theorem disabled_requests_do_not_interfere {σ τ ω : Type} {o : Host ω} {h : Host σ} {g : Host τ}
    (watches : o.Watches) (posts : h.Posts) (posts' : g.Posts) {m k : Machine}
    (same : m.hushed = k.hushed) (silent : m.line.Silent) (n : Nat) (t : ω) (s : σ) (s' : τ)
    (never : ¬ Enables (m.runHistory (o.pair h) n (t, s))) :
    let r := m.run (o.pair h) n (t, s)
    let r' := k.run (o.pair g) n (t, s')
    r.1 = r'.1 ∧ r.2.1.hushed = r'.2.1.hushed ∧ r.2.2.1 = r'.2.2.1 ∧
      (m.runHistory (o.pair h) n (t, s)).filter (!·.posted) =
        (k.runHistory (o.pair g) n (t, s')).filter (!·.posted) ∧
      Machine.Undisturbed (o.pair h) n m (t, s) ∧ Machine.Undisturbed (o.pair g) n k (t, s') := by
  intro r r'
  have hm := watches.mutes posts
  have hk := watches.mutes posts'
  have silent' : k.line.Silent := by
    have hl : k.hushed.line.Silent := same ▸ ⟨silent.disabled, silent.opened, silent.empty⟩
    exact ⟨hl.disabled, hl.opened, hl.empty⟩
  have never' : ¬ Enables (k.runHistory (o.pair g) n (t, s')) := by
    intro he
    have alone := (hk.enables_iff (t := (t, s')) n silent').1 he
    rw [← same] at alone
    exact never ((hm.enables_iff (t := (t, s)) n silent).2 alone)
  -- both runs are compared with that of the watching host alone, from the same hushed machine
  have run := (hm.run n silent never).1
  have run' := (hk.run n silent' never').1
  have history := hm.history n silent never
  have history' := hk.history n silent' never'
  rw [same] at run history
  have both := run.symm.trans run'
  exact ⟨congrArg (·.1) both, congrArg (·.2.1) both, congrArg (·.2.2) both,
    history.symm.trans history', hm.undisturbed n silent never, hk.undisturbed n silent' never'⟩

theorem Profile.watches : Profile.host.Watches where
  meanwhile _ _ _ := rfl
  alone _ _ := rfl
  beforeFetch _ _ := rfl
  observe _ _ _ := rfl

/-- One host presses a key whenever the machine looks at the line, another moves the mouse before
every fetch. The profile is that of the machine with nobody around, which halts after two
instructions too. -/
theorem profile_does_not_show_requests :
    let m := Operation.applyAll [.loadRom 0 [0, 1], .reset 16] (.new ⟨16, 0, 0, 16, by decide⟩)
    let keys : Host Unit := { meanwhile := fun _ _ s => ([.request (.key 65 true)], s) }
    let mice : Host Unit := { beforeFetch := fun _ s => (.proceed, [.request (.mouse 1 2 0)], s) }
    let r := m.run (Profile.host.pair (keys.pair mice)) 2 ({}, (), ())
    let r' := m.run (Profile.host.pair Host.idle) 2 ({}, ())
    r'.1 = some (.exit .halted) ∧ r.1 = r'.1 ∧ r.2.1.hushed = r'.2.1.hushed ∧
      r.2.2.1 = r'.2.2.1 ∧ r.2.1.line.missed = 7 := by
  intro m keys mice r r'
  have hkeys : keys.Posts :=
    { meanwhile := fun _ _ _ act hact => by cases List.mem_singleton.1 hact; trivial
      beforeFetch := fun _ _ act hact => absurd hact List.not_mem_nil
      proceeds := fun _ _ => rfl }
  have hmice : mice.Posts :=
    { meanwhile := fun _ _ _ act hact => absurd hact List.not_mem_nil
      beforeFetch := fun _ _ act hact => by cases List.mem_singleton.1 hact; trivial
      proceeds := fun _ _ => rfl }
  have hidle : Host.idle.Posts :=
    { meanwhile := fun _ _ _ act hact => absurd hact List.not_mem_nil
      beforeFetch := fun _ _ act hact => absurd hact List.not_mem_nil
      proceeds := fun _ _ => rfl }
  have silent : m.line.Silent := ⟨by decide +kernel, by decide +kernel, by decide +kernel⟩
  have never : ¬ Enables (m.runHistory (Profile.host.pair (keys.pair mice)) 2 ({}, (), ())) := by
    decide +kernel
  have alike := disabled_requests_do_not_interfere Profile.watches (hkeys.pair hmice) hidle
    (Eq.refl m.hushed) silent 2 {} ((), ()) () never
  dsimp only at alike
  obtain ⟨stops, machines, profiles, -, -, -⟩ := alike
  unfold r r'
  exact ⟨by decide +kernel, stops, machines, profiles, by decide +kernel⟩

end TwelveBit
