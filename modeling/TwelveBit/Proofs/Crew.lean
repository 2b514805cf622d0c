import TwelveBit.Peripheral
import TwelveBit.Proofs.Closing
import Mathlib.Logic.Function.Basic
/-!
Crews. Any number of tickers and a key forwarder work on the line of one machine. Each takes its
turns when it gets them, between any two accesses of the machine to the line, and anybody may close
the line at any time. Keys come through in the order in which they were received, every byte and
every tick is answered for, and where the line is closed the workers retire.
-/
namespace TwelveBit
variable {ι σ : Type}

def Happening.byHost : Happening → Bool
  | acted _ _ => true
  | asked _ _ | told _ | paused _ => false

inductive Worker (ι : Type) where
  | ticker (i : ι)
  | forwarder
  deriving DecidableEq

inductive Turn (ι : Type) where
  | ticker (i : ι)
  | receive (x : Keys.Input)
  | check
  | close

inductive Deed (ι : Type) where
  | passed (w : Worker ι)
  | posted (w : Worker ι) (irq : Interrupt) (accepted : Bool)
  | closed
  deriving DecidableEq

namespace Deed

def ofActions (w : Worker ι) (l : Line) : List Line.Action → Deed ι
  | .request irq :: _ => posted w irq l.accepting
  | _ => passed w

def happening? : Deed ι → Option Happening
  | passed _ => none
  | posted _ irq accepted => some (.acted (.request irq) (some accepted))
  | closed => some (.acted .close none)

def accepted? : Deed ι → Option Interrupt
  | posted _ irq true => some irq
  | _ => none

def refused : Deed ι → Bool
  | posted _ _ false => true
  | _ => false

variable [DecidableEq ι]

def isBy (w : Worker ι) : Deed ι → Bool
  | passed v | posted v _ _ => v = w
  | closed => false

def request? (w : Worker ι) : Deed ι → Option Interrupt
  | posted v irq _ => if v = w then some irq else none
  | _ => none

theorem request?_posted_self (w : Worker ι) (irq : Interrupt) (a : Bool) :
    (posted w irq a).request? w = some irq := if_pos rfl

end Deed

structure Crew (ι : Type) where
  phase : ι → Ticker.Phase := fun _ => .checking
  ticks : ι → Nat := fun _ => 0
  keys : Keys.Phase := .receiving
  received : List UInt8 := []
  deeds : List (Deed ι) := []

def Keys.Input.byte? : Keys.Input → Option UInt8
  | byte b => some b
  | timeout | hangUp => none

namespace Crew
variable [DecidableEq ι] (irq : ι → Interrupt)

def turn (l : Line) (c : Crew ι) : Turn ι → List Line.Action × Crew ι
  | .ticker i =>
    let (acts, p) := Ticker.turn (irq i) l (c.phase i)
    match c.phase i with
    | .retired => ([], c)
    | .checking =>
      (acts, { c with
        phase := Function.update c.phase i p
        deeds := c.deeds ++ [.ofActions (.ticker i) l acts] })
    | .ticking =>
      (acts, { c with
        phase := Function.update c.phase i p
        ticks := Function.update c.ticks i (c.ticks i + 1)
        deeds := c.deeds ++ [.ofActions (.ticker i) l acts] })
  | .receive x =>
    let (acts, p) := Keys.receive x
    match c.keys with
    | .receiving =>
      (acts, { c with
        keys := p
        received := c.received ++ x.byte?.toList
        deeds := c.deeds ++ [.ofActions .forwarder l acts] })
    | .checking | .retired => ([], c)
  | .check =>
    match c.keys with
    | .checking => ([], { c with keys := Keys.check l, deeds := c.deeds ++ [.passed .forwarder] })
    | .receiving | .retired => ([], c)
  | .close => ([.close], { c with deeds := c.deeds ++ [.closed] })

def turns : List (Turn ι) → Line → Crew ι → List Line.Action × Crew ι
  | [], _, c => ([], c)
  | t :: ts, l, c =>
    let (acts, c) := turn irq l c t
    let (acts', c) := turns ts (l.performAll acts) c
    (acts ++ acts', c)

def left (c : Crew ι) : Worker ι → Nat
  | .ticker i =>
    match c.phase i with
    | .ticking => 2
    | .checking => 1
    | .retired => 0
  | .forwarder =>
    match c.keys with
    | .receiving => 2
    | .checking => 1
    | .retired => 0

def due (c : Crew ι) : Worker ι → Nat
  | .ticker i => if c.phase i = .ticking then 1 else 0
  | .forwarder => if c.keys = .receiving then 1 else 0

structure Does (l : Line) (c : Crew ι) (d : Deed ι) (r : List Line.Action × Crew ι) : Prop where
  deeds : r.2.deeds = c.deeds ++ [d]
  answers : l.answers r.1 = d.happening?.toList
  bytes : ∃ bs : List UInt8, r.2.received = c.received ++ bs ∧
    (d.request? .forwarder).toList = bs.map fun b => .key b.toNat true
  ticks : ∀ i, ∃ n, r.2.ticks i = c.ticks i + n ∧
    (d.request? (.ticker i)).toList = List.replicate n (irq i)
  refused : l.closed = true → ∀ w irq a, d = .posted w irq a → a = false
  left : l.closed = true → ∀ w, r.2.left w + (d.isBy w).toNat ≤ c.left w
  due : l.closed = true → ∀ w, r.2.due w + (d.request? w).toList.length ≤ c.due w

variable {irq : ι → Interrupt} {l : Line} {c c' : Crew ι}

theorem Does.of_passed {w : Worker ι} (hd : c'.deeds = c.deeds ++ [.passed w])
    (hr : c'.received = c.received) (ht : c'.ticks = c.ticks)
    (hleft : l.closed = true → ∀ v, c'.left v + (decide (w = v)).toNat ≤ c.left v)
    (hdue : l.closed = true → ∀ v, c'.due v ≤ c.due v) : Does irq l c (.passed w) ([], c') where
  deeds := hd
  answers := rfl
  bytes := ⟨[], by rw [hr, List.append_nil], rfl⟩
  ticks i := ⟨0, by rw [ht, Nat.add_zero], rfl⟩
  refused _ _ _ _ he := by cases he
  left := hleft
  due := hdue

theorem does_ticker_check (i : ι) (hp : c.phase i = .checking) :
    Does irq l c (.passed (.ticker i)) (turn irq l c (.ticker i)) := by
  simp only [turn, hp, Ticker.turn, Deed.ofActions]
  refine .of_passed rfl rfl rfl (fun hc v => ?_) fun hc v => ?_
  · cases v with
    | forwarder => simp [Crew.left]
    | ticker j =>
      by_cases hj : j = i
      · subst hj
        simp [Crew.left, hp, hc]
      · simp [Crew.left, hj, Ne.symm hj]
  · cases v with
    | forwarder => simp [Crew.due]
    | ticker j =>
      by_cases hj : j = i
      · subst hj
        simp [Crew.due, hc]
      · simp [Crew.due, hj]

theorem does_ticker_tick (i : ι) (hp : c.phase i = .ticking) :
    Does irq l c (.posted (.ticker i) (irq i) l.accepting) (turn irq l c (.ticker i)) := by
  simp only [turn, hp, Ticker.turn, Deed.ofActions]
  constructor
  case deeds => rfl
  case answers => rfl
  case bytes => exact ⟨[], (List.append_nil _).symm, rfl⟩
  case ticks =>
    intro j
    by_cases hj : j = i
    · subst hj
      exact ⟨1, by simp, by simp [Deed.request?]⟩
    · exact ⟨0, by simp [hj], by simp [Deed.request?, Ne.symm hj]⟩
  case refused =>
    intro hc w q a he
    cases he
    exact Line.accepting_of_closed hc
  case left =>
    intro hc v
    cases v with
    | forwarder => simp [Crew.left, Deed.isBy]
    | ticker j =>
      by_cases hj : j = i
      · subst hj
        simp [Crew.left, hp, Deed.isBy]
      · simp [Crew.left, hj, Ne.symm hj, Deed.isBy]
  case due =>
    intro hc v
    cases v with
    | forwarder => simp [Crew.due, Deed.request?]
    | ticker j =>
      by_cases hj : j = i
      · subst hj
        simp [Crew.due, hp, Deed.request?]
      · simp [Crew.due, hj, Ne.symm hj, Deed.request?]

theorem does_receive (x : Keys.Input) (hk : c.keys = .receiving) :
    ∃ d, Does irq l c d (turn irq l c (.receive x)) := by
  simp only [turn, hk]
  cases x with
  | byte b =>
    refine ⟨.posted .forwarder (.key b.toNat true) l.accepting, ?_⟩
    constructor
    case deeds => rfl
    case answers => rfl
    case bytes => exact ⟨[b], rfl, rfl⟩
    case ticks => exact fun i => ⟨0, rfl, rfl⟩
    case refused =>
      intro hc w q a he
      cases he
      exact Line.accepting_of_closed hc
    case left =>
      intro hc v
      cases v with
      | forwarder => simp [Crew.left, hk, Keys.receive, Deed.isBy]
      | ticker j => simp [Crew.left, Deed.isBy]
    case due =>
      intro hc v
      cases v with
      | forwarder => simp [Crew.due, hk, Keys.receive, Deed.request?]
      | ticker j => simp [Crew.due, Deed.request?]
  | timeout =>
    refine ⟨.passed .forwarder, .of_passed rfl (List.append_nil _) rfl (fun hc v => ?_)
      fun hc v => ?_⟩
    · cases v <;> simp [Crew.left, hk, Keys.receive]
    · cases v <;> simp [Crew.due, Keys.receive]
  | hangUp =>
    refine ⟨.passed .forwarder, .of_passed rfl (List.append_nil _) rfl (fun hc v => ?_)
      fun hc v => ?_⟩
    · cases v <;> simp [Crew.left, hk, Keys.receive]
    · cases v <;> simp [Crew.due, Keys.receive]

theorem does_check (hk : c.keys = .checking) :
    Does irq l c (.passed .forwarder) (turn irq l c .check) := by
  simp only [turn, hk]
  refine .of_passed rfl rfl rfl (fun hc v => ?_) fun hc v => ?_
  · cases v <;> simp [Crew.left, hk, Keys.check, hc]
  · cases v <;> simp [Crew.due, Keys.check, hc]

theorem does_close : Does irq l c .closed (turn irq l c .close) where
  deeds := rfl
  answers := rfl
  bytes := ⟨[], (List.append_nil _).symm, rfl⟩
  ticks i := ⟨0, rfl, rfl⟩
  refused _ _ _ _ he := by cases he
  left _ _ := Nat.le_refl _
  due _ _ := Nat.le_refl _

theorem does_turn (irq : ι → Interrupt) (l : Line) (c : Crew ι) (t : Turn ι) :
    turn irq l c t = ([], c) ∨ ∃ d, Does irq l c d (turn irq l c t) := by
  cases t with
  | ticker i =>
    cases hp : c.phase i with
    | retired => exact Or.inl (by simp only [turn, hp])
    | checking => exact Or.inr ⟨_, does_ticker_check i hp⟩
    | ticking => exact Or.inr ⟨_, does_ticker_tick i hp⟩
  | receive x =>
    cases hk : c.keys with
    | receiving => exact Or.inr (does_receive x hk)
    | checking | retired => exact Or.inl (by simp only [turn, hk])
  | check =>
    cases hk : c.keys with
    | checking => exact Or.inr ⟨_, does_check hk⟩
    | receiving | retired => exact Or.inl (by simp only [turn, hk])
  | close => exact Or.inr ⟨_, does_close⟩

structure WindsDown (c : Crew ι) (ds : List (Deed ι)) : Prop where
  refused : ∀ w irq a, .posted w irq a ∈ ds → a = false
  turns : ∀ w, ds.countP (·.isBy w) + c.left w ≤ 2
  requests : ∀ w, (ds.filterMap (Deed.request? w)).length + c.due w ≤ 1

theorem Does.closed_performAll {r : List Line.Action × Crew ι} (hd : Does irq l c .closed r) :
    (l.performAll r.1).closed = true := by
  rw [← Line.followAll_answers, hd.answers]
  rfl

structure Sound (irq : ι → Interrupt) (l : Line) (c : Crew ι) : Prop where
  bytes : c.deeds.filterMap (Deed.request? .forwarder) = c.received.map fun b => .key b.toNat true
  ticks : ∀ i, c.deeds.filterMap (Deed.request? (.ticker i)) = List.replicate (c.ticks i) (irq i)
  closing : ∀ pre post, c.deeds = pre ++ .closed :: post → l.closed = true ∧ c.WindsDown post

theorem sound_fresh (irq : ι → Interrupt) (l : Line) : Sound irq l ({} : Crew ι) where
  bytes := rfl
  ticks _ := rfl
  closing pre post he := by
    cases pre <;> cases he

omit [DecidableEq ι] in
theorem left_le (c : Crew ι) (w : Worker ι) : c.left w ≤ 2 := by
  cases w with
  | ticker i => cases hp : c.phase i <;> simp [left, hp]
  | forwarder => cases hk : c.keys <;> simp [left, hk]

omit [DecidableEq ι] in
theorem due_le (c : Crew ι) (w : Worker ι) : c.due w ≤ 1 := by
  cases w with
  | ticker i =>
    simp only [due]
    split <;> decide
  | forwarder =>
    simp only [due]
    split <;> decide

theorem windsDown_nil (c : Crew ι) : c.WindsDown [] where
  refused _ _ _ he := by cases he
  turns w := (Nat.zero_add _).symm ▸ c.left_le w
  requests w := (Nat.zero_add _).symm ▸ c.due_le w

variable {d : Deed ι} {r : List Line.Action × Crew ι} {l' : Line}

theorem WindsDown.snoc {ds : List (Deed ι)} (hw : c.WindsDown ds) (hc : l.closed = true)
    (hd : Does irq l c d r) : r.2.WindsDown (ds ++ [d]) where
  refused w q a ha := by
    rcases List.mem_append.1 ha with ha | ha
    · exact hw.refused w q a ha
    · exact hd.refused hc w q a (List.mem_singleton.1 ha).symm
  turns w := by
    have before := hw.turns w
    have now := hd.left hc w
    rw [List.countP_append, List.countP_singleton]
    cases hb : d.isBy w <;> simp only [hb, Bool.toNat_false, Bool.toNat_true] at now <;> simp <;>
      omega
  requests w := by
    have before := hw.requests w
    have now := hd.due hc w
    rw [List.filterMap_append, List.length_append, List.filterMap_cons]
    cases hq : d.request? w <;> simp only [hq, Option.toList, List.length] at now <;> simp <;> omega

omit [DecidableEq ι] in
theorem filterMap_snoc {β : Type} (f : Deed ι → Option β) (ds : List (Deed ι)) (d : Deed ι) :
    (ds ++ [d]).filterMap f = ds.filterMap f ++ (f d).toList := by
  rw [List.filterMap_append, List.filterMap_cons]
  cases f d <;> rfl

/-- Apart from the crew, only the machine acts on the line, and it does not open it. -/
theorem Sound.of_line (hs : Sound irq l c) (hl : l.closed = true → l'.closed = true) :
    Sound irq l' c where
  bytes := hs.bytes
  ticks := hs.ticks
  closing pre post he := (hs.closing pre post he).imp hl id

theorem Sound.of_does (hs : Sound irq l c) (hd : Does irq l c d r) :
    Sound irq (l.performAll r.1) r.2 where
  bytes := by
    obtain ⟨bs, hr, hb⟩ := hd.bytes
    rw [hd.deeds, filterMap_snoc, hs.bytes, hb, hr, List.map_append]
  ticks i := by
    obtain ⟨n, hn, ht⟩ := hd.ticks i
    rw [hd.deeds, filterMap_snoc, hs.ticks, ht, hn, List.replicate_append_replicate]
  closing pre post he := by
    rw [hd.deeds] at he
    rcases List.eq_nil_or_concat post with rfl | ⟨ds, e, rfl⟩
    · obtain ⟨-, hlast⟩ := List.append_inj' he rfl
      cases hlast
      exact ⟨hd.closed_performAll, windsDown_nil _⟩
    · rw [List.concat_eq_append] at he ⊢
      rw [← List.cons_append, ← List.append_assoc] at he
      obtain ⟨hfront, hlast⟩ := List.append_inj' he rfl
      cases hlast
      obtain ⟨hc, hw⟩ := hs.closing pre ds hfront
      exact ⟨Line.closed_performAll hc _, hw.snoc hc hd⟩

structure Works (irq : ι → Interrupt) (l : Line) (c : Crew ι) (es : List Happening) (l' : Line)
    (c' : Crew ι) : Prop where
  sound : Sound irq l c → Sound irq l' c'
  recorded : c'.deeds.filterMap Deed.happening? =
    c.deeds.filterMap Deed.happening? ++ es.filter Happening.byHost

variable {k : Line} {b : Crew ι} {es fs : List Happening}

theorem Works.of_line (hl : l.closed = true → l'.closed = true)
    (he : es.filter Happening.byHost = []) : Works irq l c es l' c where
  sound hs := hs.of_line hl
  recorded := by rw [he, List.append_nil]

theorem Works.append (hb : Works irq l c es k b) (hc : Works irq k b fs l' c') :
    Works irq l c (es ++ fs) l' c' where
  sound hs := hc.sound (hb.sound hs)
  recorded := by rw [hc.recorded, hb.recorded, List.filter_append, List.append_assoc]

omit [DecidableEq ι] in
theorem filter_answers (l : Line) (acts : List Line.Action) :
    (l.answers acts).filter Happening.byHost = l.answers acts := by
  refine List.filter_eq_self.2 fun e he => ?_
  obtain ⟨a, -, reply, rfl⟩ := Line.acted_of_mem_answers he
  rfl

theorem works_turn (irq : ι → Interrupt) (l : Line) (c : Crew ι) (t : Turn ι) :
    let r := turn irq l c t
    Works irq l c (l.answers r.1) (l.performAll r.1) r.2 := by
  rcases does_turn irq l c t with hn | ⟨d, hd⟩
  · rw [hn]
    exact .of_line id rfl
  · refine ⟨fun hs => hs.of_does hd, ?_⟩
    rw [hd.deeds, filterMap_snoc, filter_answers, hd.answers]

theorem works_turns (irq : ι → Interrupt) (ts : List (Turn ι)) (l : Line) (c : Crew ι) :
    let r := turns irq ts l c
    Works irq l c (l.answers r.1) (l.performAll r.1) r.2 := by
  induction ts generalizing l c with
  | nil => exact .of_line id rfl
  | cons t ts ih =>
    have first := works_turn irq l c t
    simp only [turns, Line.answers_append, Line.performAll_append]
    exact first.append (ih _ _)

/-- Nobody but the crew acts on the line. Who gets a turn and when is decided by a host that may go
by anything it knows. -/
structure Staffed (irq : ι → Interrupt) (h : Host (σ × Crew ι)) : Prop where
  meanwhile : ∀ a l s c, ∃ ts t,
    let r := turns irq ts l c
    h.meanwhile a l (s, c) = (r.1, t, r.2)
  beforeFetch : ∀ m s c, ∃ flow ts t,
    let r := turns irq ts m.line c
    h.beforeFetch m (s, c) = (flow, r.1, t, r.2)
  observe : ∀ m e s c, (h.observe m e (s, c)).2 = c

def host (irq : ι → Interrupt) : Host (List (List (Turn ι)) × Crew ι) where
  meanwhile _ l := fun (rota, c) =>
    let (acts, c) := turns irq (rota.headD []) l c
    (acts, rota.tail, c)

theorem staffed_host (irq : ι → Interrupt) : Staffed irq (host irq) where
  meanwhile _ _ rota _ := ⟨rota.headD [], rota.tail, rfl⟩
  beforeFetch _ rota _ := ⟨.proceed, [], rota, rfl⟩
  observe _ _ _ _ := rfl

theorem Staffed.attests {h : Host (σ × Crew ι)} (staffed : Staffed irq h) :
    Machine.Attests h fun p es q => Works irq p.1.line p.2.2 es q.1.line q.2.2 := by
  have told (m m' : Machine) (s : σ × Crew ι) (e : Event)
      (hl : m.line.closed = true → m'.line.closed = true) :
      Works irq m.line s.2 [.told e] m'.line (h.observe m' e s).2 := by
    rw [staffed.observe]
    exact .of_line hl rfl
  constructor
  case nil => exact fun p => .of_line id rfl
  case append => exact Works.append
  case unseen => exact fun m s c pc b => .of_line id rfl
  case meanwhile =>
    intro a m s
    obtain ⟨ts, t, hr⟩ := staffed.meanwhile a m.line s.1 s.2
    rw [hr]
    exact works_turns irq ts m.line s.2
  case asked =>
    intro m s
    obtain ⟨flow, ts, t, hr⟩ := staffed.beforeFetch m s.1 s.2
    rw [hr]
    exact (works_turns irq ts m.line s.2).append (.of_line id rfl)
  case closed => exact fun m s hc => told m m s .closed id
  case taken => exact fun m s q hp => told m _ s (.taken q) id
  case delivered =>
    intro m s q c pc hp k n
    have first := told m k s (.taken q) id
    exact first.append (told k n _ (.delivered q m.pc) id)
  case inner => exact fun m s e he => told m m s e id
  case executed => exact fun m s i hi => told m m.counted s (.executed i) id
  case switched => exact fun m s i on hi => told m _ s (.executed i) id

end Crew

namespace Machine
variable [DecidableEq ι] {irq : ι → Interrupt} {h : Host (σ × Crew ι)} {m m' k : Machine}
  {s u : σ × Crew ι} {es : List Happening} {stop : Option Stop}

/-- The machine takes steps while the crew works. One that is left waiting is woken; between two
steps, and while the machine waits, the crew may have as many turns as it likes. -/
inductive Attended (irq : ι → Interrupt) (h : Host (σ × Crew ι)) (m : Machine) (s : σ × Crew ι) :
    List Happening → Option Stop → Machine → σ × Crew ι → Prop
  | start : Attended irq h m s [] none m s
  | step {es : List Happening} {stop : Option Stop} {k : Machine} {u : σ × Crew ι}
      (before : Attended irq h m s es stop k u) (returned : stop ≠ some .blocked) :
      Attended irq h m s (es ++ k.stepHistory h u) (k.step h u).1 (k.step h u).2.1 (k.step h u).2.2
  | wake {es : List Happening} {k : Machine} {u : σ × Crew ι}
      (before : Attended irq h m s es (some .blocked) k u) :
      Attended irq h m s (es ++ k.wakeHistory h u) (k.wake h u).1 (k.wake h u).2.1 (k.wake h u).2.2
  | turns {es : List Happening} {stop : Option Stop} {k : Machine} {t : σ} {c : Crew ι}
      (before : Attended irq h m s es stop k (t, c)) (ts : List (Turn ι)) (t' : σ) :
      Attended irq h m s (es ++ k.line.answers (Crew.turns irq ts k.line c).1) stop
        (k.perform (Crew.turns irq ts k.line c).1) (t', (Crew.turns irq ts k.line c).2)

/-- What chronicles attest holds of attended machines, if it holds of the turns of the crew. -/
theorem Attended.attested {K : Machine × σ × Crew ι → List Happening → Machine × σ × Crew ι → Prop}
    (hK : Attests h K) (turns : ∀ (k : Machine) (t t' : σ) (c : Crew ι) (ts : List (Turn ι)),
      let r := Crew.turns irq ts k.line c
      K (k, t, c) (k.line.answers r.1) (k.perform r.1, t', r.2))
    (ha : Attended irq h m s es stop m' u) : K (m, s) es (m', u) := by
  induction ha with
  | start => exact hK.nil _
  | step before returned ih => exact hK.append ih (hK.step _ _)
  | wake before ih => exact hK.append ih (hK.wake _ _)
  | turns before ts t' ih => exact hK.append ih (turns _ _ t' _ ts)

theorem Attended.account (ha : Attended irq h m s es stop m' u) : Account m m' es :=
  ha.attested (attests_account h) fun k _ _ _ _ => .answers k _

theorem Attended.works (staffed : Crew.Staffed irq h) (ha : Attended irq h m s es stop m' u) :
    Crew.Works irq m.line s.2 es m'.line u.2 :=
  ha.attested staffed.attests fun k _ _ c ts => Crew.works_turns irq ts k.line c

def DeliversTaken (es : List Happening) : Prop :=
  (es.filterMap Happening.delivered?).Sublist (es.filterMap Happening.taken?)

theorem DeliversTaken.append {fs : List Happening} (he : DeliversTaken es)
    (hf : DeliversTaken fs) : DeliversTaken (es ++ fs) := by
  unfold DeliversTaken at he hf ⊢
  rw [List.filterMap_append, List.filterMap_append]
  exact he.append hf

theorem deliversTaken_of_quiet (hq : ∀ e ∈ es, e.Quiet) : DeliversTaken es := by
  rw [DeliversTaken, Happening.delivered_of_quiet hq]
  exact List.nil_sublist _

theorem deliversTaken_answers (l : Line) (acts : List Line.Action) :
    DeliversTaken (l.answers acts) :=
  deliversTaken_of_quiet fun _ he => Happening.quiet_of_mem_answers he

theorem attests_deliveries {τ : Type} (h : Host τ) : Attests h fun _ es _ => DeliversTaken es where
  nil p := List.nil_sublist _
  append := DeliversTaken.append
  unseen m s c pc b := List.nil_sublist _
  meanwhile a m s := deliversTaken_answers m.line _
  asked m s := (deliversTaken_answers m.line _).append (List.nil_sublist _)
  closed m s hc := List.nil_sublist _
  taken m s q hp := List.nil_sublist _
  delivered m s q c pc hp := List.Sublist.refl [q]
  inner m s e he := by
    cases e with
    | fetched | halted | abandoned => exact List.nil_sublist _
    | closed | taken | delivered | executed => exact he.elim
  executed m s i hi := List.nil_sublist _
  switched m s i on hi := List.nil_sublist _

theorem Attended.deliversTaken (ha : Attended irq h m s es stop m' u) : DeliversTaken es :=
  ha.attested (attests_deliveries h) fun k _ _ _ _ => deliversTaken_answers k.line _

end Machine

def Interrupt.fromKeys (irq : Interrupt) : Bool := irq.source = .keyboard

namespace Crew
variable [DecidableEq ι] {irq : ι → Interrupt} {l : Line} {c : Crew ι} {es : List Happening}
  {m m' : Machine}

/-- If no ticker posts a key, the keys that were accepted are some of those that were forwarded. -/
theorem keys_sublist (ds : List (Deed ι))
    (ht : ∀ i q a, .posted (.ticker i) q a ∈ ds → q.source ≠ .keyboard) :
    ((ds.filterMap Deed.accepted?).filter Interrupt.fromKeys).Sublist
      (ds.filterMap (Deed.request? .forwarder)) := by
  induction ds with
  | nil => exact List.nil_sublist _
  | cons d ds ih =>
    have rest := ih fun i q a hd => ht i q a (List.mem_cons_of_mem d hd)
    cases d with
    | passed | closed => exact rest
    | posted w q a =>
      cases w with
      | forwarder =>
        rw [List.filterMap_cons_some (Deed.request?_posted_self .forwarder q a)]
        cases a with
        -- a request that was missed is among those made all the same
        | false => exact rest.cons q
        | true =>
          have accepted : Deed.accepted? (Deed.posted (.forwarder : Worker ι) q true) = some q :=
            rfl
          rw [List.filterMap_cons_some accepted, List.filter_cons]
          split
          · exact rest.cons_cons q
          · exact rest.cons q
      | ticker i =>
        have other : ¬ q.fromKeys = true := fun hq =>
          ht i q a List.mem_cons_self (of_decide_eq_true hq)
        cases a with
        | false => exact rest
        | true =>
          have accepted : Deed.accepted? (Deed.posted (.ticker i) q true) = some q := rfl
          rw [List.filterMap_cons_some accepted, List.filter_cons_of_neg other]
          exact rest

theorem Sound.keys_sublist (hs : Sound irq l c) (hirq : ∀ i, (irq i).source ≠ .keyboard) :
    ((c.deeds.filterMap Deed.accepted?).filter Interrupt.fromKeys).Sublist
      (c.received.map fun b => .key b.toNat true) := by
  rw [← hs.bytes]
  refine Crew.keys_sublist c.deeds fun i q a hd => ?_
  have posted : q ∈ c.deeds.filterMap (Deed.request? (.ticker i)) :=
    List.mem_filterMap.2 ⟨_, hd, Deed.request?_posted_self _ q a⟩
  rw [hs.ticks] at posted
  rw [List.eq_of_mem_replicate posted]
  exact hirq i

omit [DecidableEq ι] in
theorem accepted_of_recorded {ds : List (Deed ι)}
    (he : ds.filterMap Deed.happening? = es.filter Happening.byHost) :
    ds.filterMap Deed.accepted? = es.filterMap Happening.accepted? := by
  have deed (d : Deed ι) : d.happening?.bind Happening.accepted? = d.accepted? := by
    cases d with
    | passed | closed => rfl
    | posted w q a => cases a <;> rfl
  have host (e : Happening) : (if e.byHost then e.accepted? else none) = e.accepted? := by
    cases e <;> rfl
  calc ds.filterMap Deed.accepted?
      = (ds.filterMap Deed.happening?).filterMap Happening.accepted? := by
        simp only [List.filterMap_filterMap, deed]
    _ = es.filterMap Happening.accepted? := by
        simp only [he, List.filterMap_filter, host]

omit [DecidableEq ι] in
theorem refused_of_recorded {ds : List (Deed ι)}
    (he : ds.filterMap Deed.happening? = es.filter Happening.byHost) :
    ds.countP Deed.refused = es.countP Happening.refused := by
  have deed (d : Deed ι) : d.happening?.any Happening.refused = d.refused := by
    cases d with
    | passed | closed => rfl
    | posted w q a => cases a <;> rfl
  have host (e : Happening) : (e.refused && e.byHost) = e.refused := by
    cases e with
    | acted => exact Bool.and_true _
    | asked | told | paused => rfl
  calc ds.countP Deed.refused
      = (ds.filterMap Deed.happening?).countP Happening.refused := by
        rw [List.countP_filterMap]
        exact List.countP_congr fun d _ => by rw [← deed d]; cases d.happening? <;> simp
    _ = es.countP Happening.refused := by
        simp only [he, List.countP_filter, host]

structure Answered (irq : ι → Interrupt) (m : Machine) (es : List Happening) (m' : Machine)
    (c : Crew ι) : Prop where
  recorded : c.deeds.filterMap Deed.happening? = es.filter Happening.byHost
  bytes : c.deeds.filterMap (Deed.request? .forwarder) = c.received.map fun b => .key b.toNat true
  ticks : ∀ i, c.deeds.filterMap (Deed.request? (.ticker i)) = List.replicate (c.ticks i) (irq i)
  accepted : m.line.pending.toList ++ c.deeds.filterMap Deed.accepted? =
    es.filterMap Happening.taken? ++ m'.line.pending.toList
  missed : m'.line.missed = m.line.missed + c.deeds.countP Deed.refused

end Crew

namespace Machine
variable [DecidableEq ι] {irq : ι → Interrupt} {h : Host (σ × Crew ι)} {m m' : Machine}
  {s : σ} {u : σ × Crew ι} {es : List Happening} {stop : Option Stop}

theorem Attended.sound (staffed : Crew.Staffed irq h)
    (ha : Attended irq h m (s, {}) es stop m' u) : Crew.Sound irq m'.line u.2 :=
  (ha.works staffed).sound (Crew.sound_fresh irq m.line)

theorem Attended.answered (staffed : Crew.Staffed irq h)
    (ha : Attended irq h m (s, {}) es stop m' u) : Crew.Answered irq m es m' u.2 := by
  have sound := ha.sound staffed
  have account := ha.account
  have recorded : u.2.deeds.filterMap Deed.happening? = es.filter Happening.byHost :=
    (ha.works staffed).recorded
  constructor
  case recorded => exact recorded
  case bytes => exact sound.bytes
  case ticks => exact sound.ticks
  case accepted =>
    rw [Crew.accepted_of_recorded recorded, account.line]
    exact Line.pending_followAll account.bears
  case missed =>
    rw [Crew.refused_of_recorded recorded, account.line]
    exact Line.missed_followAll account.bears

/-- The keys that come through, and the one that is pending, are some of those received. -/
theorem Attended.keys (staffed : Crew.Staffed irq h) (hirq : ∀ i, (irq i).source ≠ .keyboard)
    (ha : Attended irq h m (s, {}) es stop m' u) :
    ((es.filterMap Happening.delivered? ++ m'.line.pending.toList).filter
      Interrupt.fromKeys).Sublist
      (m.line.pending.toList.filter Interrupt.fromKeys ++
        u.2.received.map fun b => .key b.toNat true) := by
  have delivered : (es.filterMap Happening.delivered?).Sublist (es.filterMap Happening.taken?) :=
    ha.deliversTaken
  have through := (delivered.append_right m'.line.pending.toList).filter Interrupt.fromKeys
  rw [← (ha.answered staffed).accepted, List.filter_append m.line.pending.toList] at through
  exact through.trans (((ha.sound staffed).keys_sublist hirq).append_left _)

end Machine

/-- Any number of tickers and a key forwarder work on the line of a machine while it runs, and
somebody closes the line at some time. Whoever gets a turn when: the keys that are delivered or
still pending are some of the bytes received, in their order, unless a ticker posts keys as well;
every byte and every tick has been posted once, and was either accepted or counted as missed; and
once the line is closed, a worker takes two more turns at most and posts in one of them at most,
which is refused. -/
theorem peripherals_keep_order_and_retire {ι σ : Type} [DecidableEq ι] {irq : ι → Interrupt}
    {h : Host (σ × Crew ι)} (staffed : Crew.Staffed irq h) {m m' : Machine} {s : σ}
    {u : σ × Crew ι} {es : List Happening} {stop : Option Stop}
    (attended : Machine.Attended irq h m (s, {}) es stop m' u) :
    let c := u.2
    ((∀ i, (irq i).source ≠ .keyboard) →
      (((es.filterMap Happening.delivered? ++ m'.line.pending.toList).filter
          Interrupt.fromKeys).map Interrupt.args).Sublist
        ((m.line.pending.toList.filter Interrupt.fromKeys).map Interrupt.args ++
          c.received.map fun b => [b.toNat, 1])) ∧
    Crew.Answered irq m es m' c ∧
    ∀ pre post, c.deeds = pre ++ .closed :: post → ∀ w,
      (post.filter (Deed.isBy w)).length ≤ 2 ∧ (post.filterMap (Deed.request? w)).length ≤ 1 ∧
        ∀ q accepted, .posted w q accepted ∈ post → accepted = false := by
  refine ⟨fun hirq => ?_, attended.answered staffed, fun pre post he w => ?_⟩
  · have keys := (attended.keys staffed hirq).map Interrupt.args
    rw [List.map_append, List.map_map] at keys
    exact keys
  · obtain ⟨-, winds⟩ := (attended.sound staffed).closing pre post he
    rw [← List.countP_eq_length_filter]
    exact ⟨Nat.le_of_add_right_le (winds.turns w), Nat.le_of_add_right_le (winds.requests w),
      winds.refused w⟩

/-- Two tickers and two keys. The line is closed in the middle of a step, in which the second key
is still delivered; one of the tickers has yet to post and is refused. -/
theorem ticker_is_refused_after_close :
    let irq : Bool → Interrupt := fun vblank => if vblank then .vblank else .timer
    let h := Crew.host irq
    let m := Operation.applyAll [.loadRom 0 [2], .reset 32] (.new ⟨32, 0, 0, 32, by decide⟩)
    let rota : List (List (Turn Bool)) :=
      [[], [], [], [.receive (.byte 65), .ticker true, .ticker false, .ticker false], [],
        [.check, .receive (.byte 66)], [.close, .ticker true, .ticker true, .check]]
    let r := m.step h (rota, {})
    let r' := r.2.1.step h r.2.2
    let r'' := r'.2.1.step h r'.2.2
    let c := r''.2.2.2
    let es := m.stepHistory h (rota, {}) ++ r.2.1.stepHistory h r.2.2 ++
      r'.2.1.stepHistory h r'.2.2
    (((es.filterMap Happening.delivered? ++ r''.2.1.line.pending.toList).filter
        Interrupt.fromKeys).map Interrupt.args).Sublist [[65, 1], [66, 1]] ∧
      r''.2.1.interrupts = 2 ∧ r''.2.1.line.missed = 2 ∧ c.deeds.countP Deed.refused = 2 ∧
      c.phase true = .retired ∧ c.keys = .retired ∧
      ∃ pre post, c.deeds = pre ++ .closed :: post ∧
        post.filterMap (Deed.request? (.ticker true)) = [.vblank] ∧
        ∀ q accepted, .posted (.ticker true) q accepted ∈ post → accepted = false := by
  intro irq h m rota r r' r'' c es
  have hirq (i : Bool) : (irq i).source ≠ .keyboard := by
    cases i <;> decide
  have begins : Machine.Attended irq h m (rota, {}) [] none m (rota, {}) := .start
  have first := begins.step (fun hb => by cases hb)
  have second := first.step (by decide +kernel)
  have third := second.step (by decide +kernel)
  obtain ⟨order, answered, retire⟩ :=
    peripherals_keep_order_and_retire (Crew.staffed_host irq) third
  have keys : (((es.filterMap Happening.delivered? ++ r''.2.1.line.pending.toList).filter
      Interrupt.fromKeys).map Interrupt.args).Sublist [[65, 1], [66, 1]] := by
    have pending : m.line.pending = none := by decide +kernel
    have received : c.received = [65, 66] := by decide +kernel
    have through := order hirq
    unfold c r'' r' r at received
    rw [pending, received, List.nil_append] at through
    unfold es r'' r' r
    exact through
  have missed : r''.2.1.line.missed = 2 := by decide +kernel
  have closing : c.deeds = c.deeds.take 6 ++ .closed :: c.deeds.drop 7 := by decide +kernel
  have refused (q : Interrupt) (accepted : Bool)
      (hq : .posted (.ticker true) q accepted ∈ c.deeds.drop 7) : accepted = false := by
    unfold c r'' r' r at closing hq
    exact (retire _ _ closing (.ticker true)).2.2 q accepted hq
  have refusals : c.deeds.countP Deed.refused = 2 := by
    have none_missed : m.line.missed = 0 := by decide +kernel
    have counted := answered.missed
    unfold c r'' r' r
    unfold r'' r' r at missed
    rw [missed, none_missed, Nat.zero_add] at counted
    exact counted.symm
  exact ⟨keys, by decide +kernel, missed, refusals, by decide +kernel, by decide +kernel,
    c.deeds.take 6, c.deeds.drop 7, closing, by decide +kernel, refused⟩

end TwelveBit
