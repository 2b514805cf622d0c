import TwelveBit.Proofs.Crew
/-!
Key forwarding. A forwarder that has the line to itself reads one input after the other and looks
at the line in between. An open line gets a request for every byte, of which it accepts the first
one at most; a closed line refuses one byte, and the forwarder retires.
-/
namespace TwelveBit

namespace Line
variable {l : Line}

/-- A line that accepts nothing stays as it is, apart from what it counts. -/
theorem performAll_requests_of_refusing (hr : l.accepting = false) (irqs : List Interrupt) :
    l.performAll (irqs.map .request) = { l with missed := l.missed + irqs.length } := by
  induction irqs generalizing l with
  | nil => rfl
  | cons irq irqs ih =>
    have first : l.perform (.request irq) = { l with missed := l.missed + 1 } := by
      simp only [perform, request, hr, Bool.false_eq_true, if_false]
    have others := ih (l := { l with missed := l.missed + 1 }) hr
    rw [List.map_cons, performAll, List.foldl_cons, first, ← performAll, others, List.length_cons]
    dsimp only
    rw [Nat.add_assoc, Nat.add_comm 1]

/-- A line that accepts takes the first request and no other. -/
theorem performAll_requests_of_accepting (ha : l.accepting = true) (irq : Interrupt)
    (irqs : List Interrupt) :
    l.performAll ((irq :: irqs).map .request) =
      { l with pending := some irq, missed := l.missed + irqs.length } := by
  have first : l.perform (.request irq) = { l with pending := some irq } := by
    simp only [perform, request, ha, if_true]
  have full : ({ l with pending := some irq } : Line).accepting = false := by
    simp only [accepting, Option.isNone_some, Bool.and_false]
  rw [List.map_cons, performAll, List.foldl_cons, first, ← performAll]
  exact performAll_requests_of_refusing full irqs

theorem switches_performAll_requests (l : Line) (irqs : List Interrupt) :
    (l.performAll (irqs.map .request)).enabled = l.enabled ∧
      (l.performAll (irqs.map .request)).closed = l.closed := by
  cases ha : l.accepting with
  | false =>
    rw [performAll_requests_of_refusing ha]
    exact ⟨rfl, rfl⟩
  | true =>
    cases irqs with
    | nil => exact ⟨rfl, rfl⟩
    | cons irq irqs =>
      rw [performAll_requests_of_accepting ha]
      exact ⟨rfl, rfl⟩

theorem accepting_of_open (hc : l.closed = false) (he : l.enabled = true)
    (hp : l.pending = none) : l.accepting = true := by
  simp only [accepting, hc, he, hp, Option.isNone_none, Bool.not_false, Bool.and_self]

theorem not_accepting (hr : l.enabled = false ∨ l.pending.isSome = true) :
    l.accepting = false := by
  obtain he | hp := hr
  · simp only [accepting, he, Bool.false_and]
  · obtain ⟨irq, hp⟩ := Option.isSome_iff_exists.1 hp
    simp only [accepting, hp, Option.isNone_some, Bool.and_false]

end Line

namespace Keys

structure Desk where
  phase : Phase
  line : Line
  unread : List Input
  deriving DecidableEq

def serve : List Input → Line → Desk
  | [], l => ⟨.receiving, l, []⟩
  | x :: xs, l =>
    let (acts, p) := receive x
    let l := l.performAll acts
    if p = .retired ∨ check l = .retired then ⟨.retired, l, xs⟩ else serve xs l

def bytes (bs : List UInt8) : List Input := bs.map .byte ++ [.hangUp]

def events (bs : List UInt8) : List Interrupt := bs.map fun b => .key b.toNat true

variable {l : Line} {x : Input} {xs : List Input}

theorem serve_of_staying (hp : (receive x).2 ≠ .retired)
    (hc : (l.performAll (receive x).1).closed = false) :
    serve (x :: xs) l = serve xs (l.performAll (receive x).1) := by
  have stays : ¬ ((receive x).2 = .retired ∨ check (l.performAll (receive x).1) = .retired) := by
    simp [check, hp, hc]
  exact if_neg stays

theorem serve_of_retiring (h : (receive x).2 = .retired ∨
    (l.performAll (receive x).1).closed = true) :
    serve (x :: xs) l = ⟨.retired, l.performAll (receive x).1, xs⟩ := by
  have retires : (receive x).2 = .retired ∨ check (l.performAll (receive x).1) = .retired :=
    h.imp id fun hc => if_pos hc
  exact if_pos retires

theorem forward_eq_serve (bs : List UInt8) (l : Line) : forward bs l = (serve (bytes bs) l).line := by
  induction bs generalizing l with
  | nil => rfl
  | cons b bs ih =>
    rw [bytes, List.map_cons, List.cons_append, ← bytes, forward]
    cases hc : (l.performAll (receive (.byte b)).1).closed with
    | true =>
      rw [serve_of_retiring (Or.inr hc)]
      simp only [check, hc, if_true]
    | false =>
      rw [serve_of_staying (by exact fun h => by cases h) hc]
      simp only [check, hc, Bool.false_eq_true, if_false]
      exact ih _

/-- However long the pauses between two bytes, an open line gets all of them. -/
theorem serve_of_open (hc : l.closed = false) (hx : .hangUp ∉ xs) :
    serve (xs ++ [.hangUp]) l =
      ⟨.retired, l.performAll ((events (xs.filterMap Input.byte?)).map .request), []⟩ := by
  induction xs generalizing l with
  | nil => rfl
  | cons x xs ih =>
    have others : .hangUp ∉ xs := fun h => hx (List.mem_cons_of_mem x h)
    rw [List.cons_append]
    cases x with
    | hangUp => exact absurd List.mem_cons_self hx
    | timeout =>
      rw [serve_of_staying (x := .timeout) (fun h => by cases h) hc]
      exact ih hc others
    | byte b =>
      have hc' : (l.performAll (receive (.byte b)).1).closed = false :=
        (l.switches_performAll_requests [.key b.toNat true]).2.trans hc
      rw [serve_of_staying (x := .byte b) (fun h => by cases h) hc']
      exact ih hc' others

/-- On a closed line the first input is the last that is read. -/
theorem serve_of_closed (hc : l.closed = true) (x : Input) (xs : List Input) :
    serve (x :: xs) l =
      ⟨.retired, { l with missed := l.missed + x.byte?.toList.length }, xs⟩ := by
  have left : l.performAll (receive x).1 =
      { l with missed := l.missed + x.byte?.toList.length } := by
    cases x with
    | hangUp | timeout => rfl
    | byte b =>
      exact Line.performAll_requests_of_refusing (Line.accepting_of_closed hc) [.key b.toNat true]
  rw [serve_of_retiring (Or.inr (Line.closed_performAll hc _)), left]

theorem filterMap_byte (bs : List UInt8) : (bs.map Input.byte).filterMap Input.byte? = bs := by
  rw [List.filterMap_map]
  exact List.filterMap_some

theorem serve_bytes_of_open (hc : l.closed = false) (bs : List UInt8) :
    serve (bytes bs) l = ⟨.retired, l.performAll ((events bs).map .request), []⟩ := by
  have none_hangs_up : .hangUp ∉ bs.map Input.byte := by
    intro h
    obtain ⟨b, -, hb⟩ := List.mem_map.1 h
    cases hb
  rw [bytes, serve_of_open hc none_hangs_up, filterMap_byte]

structure Answered (bs : List UInt8) (l : Line) (d : Desk) : Prop where
  retired : d.phase = .retired
  enabled_eq : d.line.enabled = l.enabled
  closed_eq : d.line.closed = l.closed
  closed : l.closed = true → d.unread = (bytes bs).tail ∧
    d.line = { l with missed := l.missed + min bs.length 1 }
  read : l.closed = false → d.unread = []
  refusing : l.closed = false → l.enabled = false ∨ l.pending.isSome = true →
    d.line = { l with missed := l.missed + bs.length }
  accepting : l.closed = false → l.enabled = true → l.pending = none →
    (bs = [] → d.line = l) ∧ ∀ b rest, bs = b :: rest →
      ∃ irq : Interrupt, irq.source = .keyboard ∧ irq.args = [b.toNat, 1] ∧
        d.line = { l with pending := some irq, missed := l.missed + bs.length - 1 }

theorem answered_of_closed (hc : l.closed = true) (bs : List UInt8) :
    Answered bs l (serve (bytes bs) l) := by
  have opens {p : Prop} (ho : l.closed = false) : p := by
    rw [hc] at ho
    cases ho
  have served : serve (bytes bs) l =
      ⟨.retired, { l with missed := l.missed + min bs.length 1 }, (bytes bs).tail⟩ := by
    cases bs with
    | nil => exact serve_of_closed hc .hangUp []
    | cons b bs =>
      have one : min (b :: bs).length 1 = 1 := Nat.min_eq_right (Nat.succ_pos _)
      rw [one]
      exact serve_of_closed hc (.byte b) (bytes bs)
  rw [served]
  exact ⟨rfl, rfl, rfl, fun _ => ⟨rfl, rfl⟩, opens, fun ho => opens ho, fun ho => opens ho⟩

theorem answered_of_open (hc : l.closed = false) (bs : List UInt8) :
    Answered bs l (serve (bytes bs) l) := by
  rw [serve_bytes_of_open hc]
  have length_events : (events bs).length = bs.length := List.length_map _
  have switches := l.switches_performAll_requests (events bs)
  constructor
  case retired => rfl
  case enabled_eq => exact switches.1
  case closed_eq => exact switches.2
  case read => exact fun _ => rfl
  case closed =>
    intro hc'
    rw [hc] at hc'
    cases hc'
  case refusing =>
    intro _ hr
    rw [← length_events]
    exact Line.performAll_requests_of_refusing (Line.not_accepting hr) _
  case accepting =>
    intro _ he hp
    refine ⟨fun hb => by rw [hb]; rfl, fun b rest hb => ⟨.key b.toNat true, rfl, rfl, ?_⟩⟩
    have taken := Line.performAll_requests_of_accepting (Line.accepting_of_open hc he hp)
      (.key b.toNat true) (events rest)
    have count : l.missed + bs.length - 1 = l.missed + (events rest).length := by
      rw [← length_events, hb, events, List.map_cons, List.length_cons]
      rfl
    rw [count, hb]
    exact taken

/-- A forwarder that has the line to itself retires once the sender has hung up or the line is
found closed, and accounts for every byte. A closed line refuses the first byte, and no other is
read. An open line that is disabled or holds an interrupt refuses them all. One that is enabled and
empty accepts the first as a key that goes down, and refuses the others. How long the pauses between
two bytes are makes no difference to an open line, and no flag of the line ever changes. -/
theorem bytes_are_answered (bs : List UInt8) (l : Line) :
    forward bs l = (serve (bytes bs) l).line ∧ Answered bs l (serve (bytes bs) l) ∧
      (l.closed = false → ∀ xs, .hangUp ∉ xs → xs.filterMap Input.byte? = bs →
        serve (xs ++ [.hangUp]) l = serve (bytes bs) l) := by
  refine ⟨forward_eq_serve bs l, ?_, fun hc xs hx hb => ?_⟩
  · cases hc : l.closed with
    | true => exact answered_of_closed hc bs
    | false => exact answered_of_open hc bs
  · rw [serve_of_open hc hx, hb, serve_bytes_of_open hc]

end Keys
end TwelveBit
