import TwelveBit.Machine
/-!
Hosts: what stands around a machine while it runs. A host watches what happens, may pause the
machine before an instruction is fetched, and acts on the interrupt line between any two accesses
of the machine to it. It touches nothing else.
-/
namespace TwelveBit

inductive Access where
  | closed
  | take
  | setEnabled
  | enabled
  | wait
  deriving DecidableEq, Repr

inductive Event where
  | closed
  | taken (irq : Interrupt)
  | delivered (irq : Interrupt) (ret : Nat)
  | fetched (i : Instruction)
  | halted
  | abandoned -- a wait has ended with nothing to deliver
  | executed (i : Instruction)
  deriving DecidableEq, Repr

inductive Flow where
  | proceed | pause
  deriving DecidableEq, Repr

def Flow.and : Flow → Flow → Flow
  | proceed, f => f
  | pause, _ => pause

structure Host (σ : Type) where
  /-- What the host does to the line just before the machine accesses it. -/
  meanwhile : Access → Line → σ → List Line.Action × σ := fun _ _ s => ([], s)
  /-- What the host decides, and does to the line, before an instruction is fetched. -/
  beforeFetch : Machine → σ → Flow × List Line.Action × σ := fun _ s => (.proceed, [], s)
  observe : Machine → Event → σ → σ := fun _ _ s => s

namespace Host

def idle : Host Unit := {}

/-- Two hosts at once: the second sees the line as the first has left it. Both are always asked,
and one pause is enough. -/
def pair {σ τ : Type} (a : Host σ) (b : Host τ) : Host (σ × τ) where
  meanwhile access line := fun (s, t) =>
    let (xs, s) := a.meanwhile access line s
    let (ys, t) := b.meanwhile access (line.performAll xs) t
    (xs ++ ys, s, t)
  beforeFetch m := fun (s, t) =>
    let (f, xs, s) := a.beforeFetch m s
    let (g, ys, t) := b.beforeFetch (m.perform xs) t
    (f.and g, xs ++ ys, s, t)
  observe m e := fun (s, t) => (a.observe m e s, b.observe m e t)

end Host
end TwelveBit
