import TwelveBit.Instruction
/-!
Decoding. The words of an instruction are asked for one at a time, and a record is kept of which
were asked for: never one that does not belong to the instruction.
-/
namespace TwelveBit

abbrev Fetch := Nat → Except Fault Nat

abbrev Asking := EStateM Fault (List Nat)

namespace Instruction

def ask (fetch : Fetch) (i : Nat) : Asking Nat := fun asked =>
  match fetch i with
  | .ok w => .ok w (asked ++ [i])
  | .error f => .error f (asked ++ [i])

def askLong (fetch : Fetch) (i : Nat) : Asking Nat := do
  let high ← ask fetch i
  let low ← ask fetch (i + 1)
  return join high low

def askJump (fetch : Fetch) : Asking Jump := do
  let mode ← ask fetch 1
  match JumpMode.ofNumber? mode with
  | none => throw (.unknownJumpMode mode)
  | some (.when c) => return .absolute c (← askLong fetch 2)
  | some .relative => return .relative

def decode (fetch : Fetch) : Asking Instruction := do
  let number ← ask fetch 0
  match Opcode.ofNumber? number with
  | none => throw (.unknownOpcode number)
  | some (.system op) => return system op
  | some (.plain op) => return plain op
  | some (.word op) => return word op (← ask fetch 1)
  | some (.long op) => return long op (← askLong fetch 1)
  | some .jump => return jump (← askJump fetch)

def fetched (fetch : Fetch) : Except Fault Instruction :=
  match decode fetch [] with
  | .ok i _ => .ok i
  | .error f _ => .error f

theorem fetched_eq (fetch : Fetch) :
    fetched fetch =
      match (decode fetch).run [] with
      | .ok i _ => .ok i
      | .error f _ => .error f := rfl

def fetchFrom (words : Array Nat) (position : Nat) : Fetch := fun i =>
  match words[position + i]? with
  | some w => .ok w
  | none => .error (.outOfRange (position + i))

structure Listed where
  position : Nat
  asked : List Nat
  result : Except Fault Instruction

def listAt (words : Array Nat) (position : Nat) : Listed :=
  match decode (fetchFrom words position) [] with
  | .ok i asked => ⟨position, asked, .ok i⟩
  | .error f asked => ⟨position, asked, .error f⟩

def listing (words : Array Nat) (position : Nat) : List Listed :=
  let first := listAt words position
  match first.result with
  | .error _ => [first]
  | .ok i =>
    if position + i.size < words.size then first :: listing words (position + i.size)
    else [first]
termination_by words.size - position
decreasing_by
  have := i.size_pos
  omega

end Instruction
end TwelveBit
