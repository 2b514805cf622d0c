import TwelveBit.Cpu
import TwelveBit.Interrupt
/-!
Frames. A routine starts with two words, the count of its parameters and the count of its locals,
parameters included; its code comes behind them. The caller has pushed the parameters. From the
frame pointer on lies a header of five words: return address, frame pointer of the caller, count
of locals. The locals end right below the header, and the stack of the routine starts above it.
The handler of an interrupt gets such a frame too, with the words of the interrupt as locals.
-/
namespace TwelveBit.Frame
open Cpu

def headerSize : Nat := 5

def enter (ret locals : Nat) : Effect Unit := do
  let c ← get
  let sp := c.sp
  let fp := c.fp
  pushLong ret
  pushLong fp
  push locals
  modify fun c => { c with fp := Memory.next sp }

def localBase : Effect Nat := do
  let fp := (← get).fp
  -- unlike in `leave`, the address of the count is not cut to 24 bits
  return back fp (← read (fp + 4))

def localAddr (k : Nat) : Effect Nat := do
  return toLong ((← localBase) + k)

def call (target ret : Nat) : Effect Nat := do
  let params ← read target
  let locals ← read (Memory.next target)
  -- the parameters lie on the stack already, so only the other locals need room
  modify fun c => { c with sp := back (c.sp + locals) params }
  enter ret locals
  return toLong (target + 2)

def leave : Effect Nat := do
  let fp := (← get).fp
  let locals ← read (toLong (fp + 4))
  let ret ← readAt .long fp
  let caller ← readAt .long (toLong (fp + 2))
  modify fun c => { c with sp := back fp (locals + 1), fp := caller }
  return ret

def interrupt (irq : Interrupt) (ret : Nat) : Effect Unit := do
  pushAll irq.args
  enter ret irq.args.length

end TwelveBit.Frame
