import TwelveBit.Interrupt
/-!
The interrupt line between a machine and its hosts. It holds one interrupt at most: a request is
accepted only while the line is open, enabled and empty, and counted as missed otherwise. Every
function here is one access that nothing else comes between.
-/
namespace TwelveBit

structure Line where
  enabled : Bool := false
  closed : Bool := false
  pending : Option Interrupt := none
  missed : Nat := 0
  deriving DecidableEq, Repr

namespace Line

def accepting (l : Line) : Bool := l.enabled && !l.closed && l.pending.isNone

def request (irq : Interrupt) (l : Line) : Line :=
  if l.accepting then { l with pending := some irq } else { l with missed := l.missed + 1 }

def setEnabled (on : Bool) (l : Line) : Line := { l with enabled := on }

def close (l : Line) : Line := { l with closed := true }

def take (l : Line) : Option Interrupt × Line := (l.pending, { l with pending := none })

def awake (l : Line) : Bool := l.pending.isSome || l.closed

def reset (l : Line) : Line := { closed := l.closed }

inductive Action where
  | request (irq : Interrupt)
  | setEnabled (on : Bool)
  | close
  deriving DecidableEq, Repr

def perform (l : Line) : Action → Line
  | .request irq => l.request irq
  | .setEnabled on => l.setEnabled on
  | .close => l.close

def performAll (l : Line) (acts : List Action) : Line := acts.foldl perform l

def reply? (l : Line) : Action → Option Bool
  | .request _ => some l.accepting
  | _ => none

end Line
end TwelveBit
