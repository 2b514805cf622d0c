import TwelveBit.Execution
import TwelveBit.Decoding
import TwelveBit.Image
import TwelveBit.Line
/-!
The machine: a processor, the program counter, the interrupt line and the counts of what was done.
-/
namespace TwelveBit

structure Machine extends Cpu where
  pc : Nat
  halted : Bool
  line : Line
  instructions : Nat
  interrupts : Nat

namespace Machine

def entryOffset : Nat := 0x20

def defaultEntry (m : Machine) : Nat := m.memory.layout.romBase + entryOffset

/-- Puts everything but program memory back to zero. The header of an empty frame lies at the
bottom of memory, with the stack pointer on its last word. A closed line stays closed. -/
def reset (entry : Nat) (m : Machine) : Machine where
  memory := m.memory.clearWritable
  sp := Frame.headerSize - 1
  fp := 0
  carry := false
  highWater := 0
  pc := toLong entry
  halted := false
  line := m.line.reset
  instructions := 0
  interrupts := 0

def new (l : Layout) : Machine :=
  let m : Machine :=
    { memory := Memory.zero l, sp := 0, fp := 0, carry := false, highWater := 0
      pc := 0, halted := false, line := {}, instructions := 0, interrupts := 0 }
  m.reset m.defaultEntry

def onMemory {ε α : Type} (x : EStateM ε Memory α) : Machine → Except ε α × Machine
  | ⟨⟨memory, sp, fp, carry, highWater⟩, pc, halted, line, instructions, interrupts⟩ =>
    match x memory with
    | .ok a memory =>
      (.ok a, ⟨⟨memory, sp, fp, carry, highWater⟩, pc, halted, line, instructions, interrupts⟩)
    | .error e memory =>
      (.error e, ⟨⟨memory, sp, fp, carry, highWater⟩, pc, halted, line, instructions, interrupts⟩)

theorem onMemory_eq {ε α : Type} (x : EStateM ε Memory α) (m : Machine) :
    m.onMemory x =
      match x.run m.memory with
      | .ok a memory => (.ok a, { m with memory := memory })
      | .error e memory => (.error e, { m with memory := memory }) := rfl

def loadBlock (b : Block) (m : Machine) : Except LoadError Unit × Machine :=
  m.onMemory (Memory.loadRom b.offset b.words)

def loadBlocks (m : Machine) : List Block → Except LoadError Nat × Machine
  | [] => (.ok 0, m)
  | b :: bs =>
    match m.loadBlock b with
    | (.ok (), m) =>
      let (n, m) := m.loadBlocks bs
      (n.map (b.words.length + ·), m)
    | (.error e, m) => (.error e, m)

def load (bytes : List UInt8) (m : Machine) : Except LoadError Nat × Machine :=
  match Image.parse bytes with
  | .ok blocks => m.loadBlocks blocks
  | .error e => (.error e, m)

def fetch (m : Machine) : Fetch := fun i => m.memory.read (toLong (m.pc + i))

def perform (acts : List Line.Action) (m : Machine) : Machine :=
  { m with line := m.line.performAll acts }

end Machine
end TwelveBit
