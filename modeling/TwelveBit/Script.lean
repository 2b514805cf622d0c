import TwelveBit.Host
/-!
Scripts: a host that allows a number of fetches, acts on the line at fetches given in advance,
and keeps actions ready for a machine that would otherwise wait. It records what happens.
-/
namespace TwelveBit

namespace Script

inductive Cause where
  | budgetSpent
  | reserveSpent
  deriving DecidableEq, Repr

inductive Entry where
  | executed (i : Instruction) (pc sp fp : Nat) (carry : Bool)
  | delivered (irq : Interrupt) (pc sp fp : Nat)
  | acted (reply : Option Bool)
  deriving DecidableEq, Repr

end Script

structure Script where
  budget : Nat := 0
  fetches : Nat := 0
  timetable : List (Nat × Line.Action) := []
  reserve : List Line.Action := []
  cause : Option Script.Cause := none
  record : List Script.Entry := [] -- the last first

namespace Script

def start (s : Script) (budget : Nat) : Script :=
  { s with budget := budget, cause := none, record := [] }

def noteAll (s : Script) (line : Line) : List Line.Action → Script
  | [] => s
  | a :: as => noteAll { s with record := .acted (line.reply? a) :: s.record } (line.perform a) as

def waits (line : Line) : Bool := line.enabled && !line.awake

/-- The actions it takes until a machine would no longer wait, and those left over; nothing is
left over if there are too few. -/
def rouse (line : Line) (reserve : List Line.Action) :
    List Line.Action × Option (List Line.Action) :=
  if waits line then
    match reserve with
    | [] => ([], none)
    | a :: rest =>
      let (done, left) := rouse (line.perform a) rest
      (a :: done, left)
  else ([], some reserve)

def atHalt (m : Machine) : Bool :=
  match m.memory.read m.pc with
  | .ok w => w = SystemOp.halt.number
  | .error _ => false

def beforeFetch (m : Machine) (s : Script) : Flow × List Line.Action × Script :=
  match s.budget with
  | 0 => (.pause, [], { s with cause := some .budgetSpent })
  | budget + 1 =>
    let due := (s.timetable.filter (·.1 = s.fetches)).map (·.2)
    let s := { s with budget := budget, fetches := s.fetches + 1 }.noteAll m.line due
    let line := m.line.performAll due
    if atHalt m then
      let (done, left) := rouse line s.reserve
      let s := s.noteAll line done
      match left with
      | some reserve => (.proceed, due ++ done, { s with reserve := reserve })
      | none => (.pause, due ++ done, { s with reserve := [], cause := some .reserveSpent })
    else (.proceed, due, s)

def observe (m : Machine) (e : Event) (s : Script) : Script :=
  match e with
  | .executed i => { s with record := .executed i m.pc m.sp m.fp m.carry :: s.record }
  | .delivered irq _ => { s with record := .delivered irq m.pc m.sp m.fp :: s.record }
  | _ => s

def host : Host Script where
  beforeFetch := beforeFetch
  observe := observe

end Script
end TwelveBit
