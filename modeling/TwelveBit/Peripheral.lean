import TwelveBit.Line
/-!
Peripherals: processes beside the machine that know of it only the interrupt line. A ticker posts
one interrupt over and over; a key forwarder posts one for each byte it receives. Both look at
the line between two requests and retire once it is closed.
-/
namespace TwelveBit

namespace Ticker

inductive Phase where
  | checking | ticking | retired
  deriving DecidableEq, Repr

def turn (irq : Interrupt) (l : Line) : Phase → List Line.Action × Phase
  | .checking => ([], if l.closed then .retired else .ticking)
  | .ticking => ([.request irq], .checking)
  | .retired => ([], .retired)

def untilMissed (irq : Interrupt) (missed : Nat) : Nat → Phase → Line → Line
  | 0, _, l => l
  | fuel + 1, p, l =>
    if p = .retired ∨ missed ≤ l.missed then l
    else
      let (acts, p) := turn irq l p
      untilMissed irq missed fuel p (l.performAll acts)

end Ticker

namespace Keys

inductive Phase where
  | receiving | checking | retired
  deriving DecidableEq, Repr

inductive Input where
  | byte (b : UInt8)
  | timeout
  | hangUp
  deriving DecidableEq, Repr

def receive : Input → List Line.Action × Phase
  | .byte b => ([.request (.key b.toNat true)], .checking)
  | .timeout => ([], .checking)
  | .hangUp => ([], .retired)

def check (l : Line) : Phase := if l.closed then .retired else .receiving

def forward : List UInt8 → Line → Line
  | [], l => l.performAll (receive .hangUp).1
  | b :: bs, l =>
    let l := l.performAll (receive (.byte b)).1
    match check l with
    | .retired => l
    | _ => forward bs l

end Keys
end TwelveBit
