import TwelveBit.Host
/-!
Breakpoints: a host that pauses the machine at a set of addresses. When the machine goes on from
a pause, the breakpoint it stands on lets it pass once.
-/
namespace TwelveBit

structure Breakpoints where
  addrs : List Nat := []
  resume : Option Nat := none -- where the last fetch was put off
  deriving DecidableEq, Repr

namespace Breakpoints

def ofList (addrs : List Nat) : Breakpoints := { addrs := addrs }

def contains (b : Breakpoints) (a : Nat) : Bool := b.addrs.contains a

def insert (b : Breakpoints) (a : Nat) : Breakpoints :=
  if b.contains a then b else { b with addrs := a :: b.addrs }

def remove (b : Breakpoints) (a : Nat) : Breakpoints :=
  { b with addrs := b.addrs.filter (· ≠ a) }

def arrive (b : Breakpoints) (pc : Nat) : Flow × Breakpoints :=
  if b.resume = some pc ∨ b.contains pc = false then (.proceed, { b with resume := none })
  else (.pause, { b with resume := some pc })

def host : Host Breakpoints where
  beforeFetch m b :=
    let (flow, b) := b.arrive m.pc
    (flow, [], b)

end Breakpoints
end TwelveBit
