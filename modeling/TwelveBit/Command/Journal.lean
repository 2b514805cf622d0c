import TwelveBit.Step
import TwelveBit.Log
/-!
The journal: a host that writes down what the machine does, as far as the log wants it, and hands
on to the line what the peripherals ask for.
-/
namespace TwelveBit.Command

structure Journal where
  filter : Log.Filter
  records : List Log.Record := [] -- the last first
  queue : List Line.Action := []

namespace Journal

def note (r : Log.Record) (j : Journal) : Journal :=
  if j.filter.wants r then { j with records := r :: j.records } else j

def flush (j : Journal) : List Log.Record × Journal := (j.records.reverse, { j with records := [] })

def machineTarget : String := "twelve_vm"

def programTarget : String := "twelve"

def ofMachine (level : Log.Level) (message : String) : Log.Record := ⟨level, machineTarget, message⟩

def ofProgram (message : String) : Log.Record := ⟨.info, programTarget, message⟩

def traceLine (m : Machine) (i : Instruction) : String :=
  let six (n : Nat) := String.ofList (Hex.padded 6 n)
  six m.pc ++ ": " ++ i.text ++ " sp=" ++ six m.sp ++ " fp=" ++ six m.fp

def observe (m : Machine) (e : Event) (j : Journal) : Journal :=
  let pc := Hex.literal 6 m.pc
  match e with
  | .closed => j.note (ofMachine .info ("interrupt line closed at " ++ pc))
  | .taken irq =>
    if irq.source = .stop then j.note (ofMachine .info ("stopped at " ++ pc)) else j
  | .delivered irq ret => j.note (ofMachine .debug
      ("delivered " ++ irq.source.name ++ " interrupt, returning to " ++ Hex.literal 6 ret))
  | .fetched i =>
    if j.filter.enabled .trace machineTarget then j.note (ofMachine .trace (traceLine m i)) else j
  | .halted => j.note (ofMachine .info "halted with interrupts disabled")
  | .abandoned => j.note (ofMachine .info "interrupt line closed while halted")
  | .executed _ => j

def host : Host Journal where
  meanwhile _ _ j := (j.queue, { j with queue := [] })
  observe := observe

def notePause (m : Machine) (j : Journal) : Journal :=
  j.note (ofProgram ("break at " ++ Hex.literal 6 m.pc ++ ": sp = " ++ Hex.literal 6 m.sp ++
    ", fp = " ++ Hex.literal 6 m.fp ++ ", carry = " ++ toString m.carry))

end Journal
end TwelveBit.Command
