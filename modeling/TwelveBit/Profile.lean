import TwelveBit.Host
/-!
Profiles: how often each opcode was executed. The ranking puts the highest count first, and of
equal counts the lower opcode number, so it does not depend on the order of execution.
-/
namespace TwelveBit

structure Profile where
  counts : List (Opcode × Nat) := []
  deriving DecidableEq, Repr

namespace Profile

def bump (op : Opcode) : List (Opcode × Nat) → List (Opcode × Nat)
  | [] => [(op, 1)]
  | (o, n) :: rest => if o = op then (o, n + 1) :: rest else (o, n) :: bump op rest

def note (p : Profile) (op : Opcode) : Profile := ⟨bump op p.counts⟩

def count (p : Profile) (op : Opcode) : Nat := (p.counts.lookup op).getD 0

def before (a b : Opcode × Nat) : Bool :=
  b.2 < a.2 || (a.2 = b.2 && a.1.number ≤ b.1.number)

def top (p : Profile) (n : Nat) : List (Opcode × Nat) := (p.counts.mergeSort before).take n

def host : Host Profile where
  observe _ e p :=
    match e with
    | .executed i => p.note i.opcode
    | _ => p

end Profile
end TwelveBit
