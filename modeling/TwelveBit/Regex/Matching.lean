import TwelveBit.Regex.Expression
/-!
Matching. A set of places in a text is a number whose bits are the places. For one text, an
expression becomes a motion, which takes the places where matches may begin to those where they
end. Motions go forward only, and take a union of sets to the union of what they take each to.
-/
namespace TwelveBit.Regex

def placesWhere (p : Nat → Bool) : Nat → Nat
  | 0 => 0
  | n + 1 => placesWhere p n ||| if p n then 1 <<< n else 0

inductive Motion where
  | stay
  | keep (places : Nat)
  | step (places : Nat)
  | andThen (m n : Motion)
  | either (m n : Motion)
  | times (n : Nat) (m : Motion)
  | upTo (n : Nat) (m : Motion)
  | rows (rows : List Nat)
  deriving Repr

namespace Motion

def iterate (move : Nat → Nat) : Nat → Nat → Nat
  | 0, s => s
  | n + 1, s =>
    let t := move s
    if t = s then s else iterate move n t

def select : List Nat → Nat → Nat
  | [], _ => 0
  | row :: others, s => (if s % 2 = 1 then row else 0) ||| select others (s / 2)

def apply : Motion → Nat → Nat
  | stay, s => s
  | keep places, s => s &&& places
  | step places, s => (s &&& places) <<< 1
  | andThen m n, s => n.apply (m.apply s)
  | either m n, s => m.apply s ||| n.apply s
  | times n m, s => iterate m.apply n s
  | upTo n m, s => iterate (fun s => s ||| m.apply s) n s
  | rows rs, s => select rs s

/-- The rows of the last `n` of `length` places when the motion is repeated at will. The places
behind a place are settled before it. -/
def closure (m : Motion) (length : Nat) : Nat → List Nat
  | 0 => []
  | n + 1 =>
    let behind := m.closure length n
    let place := length - (n + 1)
    (1 <<< place ||| select behind (m.apply (1 <<< place) >>> (place + 1))) :: behind

end Motion

def isWordChar (c : Char) : Bool := c.isAlphanum || c = '_'

def Edge.holds (before after : Bool) : Edge → Bool
  | boundary => before ≠ after
  | notBoundary => before = after
  | start => !before && after
  | stop => before && !after
  | startHalf => !before
  | stopHalf => !after

def Look.holds (before after : Option Char) : Look → Bool
  | startText => before.isNone
  | endText => after.isNone
  | startLine => before.all (· = '\n')
  | endLine => after.all (· = '\n')
  | startAnyLine => before.all (· = '\n') || (before = some '\r' && after ≠ some '\n')
  | endAnyLine => after.all (· = '\r') || (after = some '\n' && before ≠ some '\r')
  | edge e _ => e.holds (before.any isWordChar) (after.any isWordChar)

/-- What an expression does to places of a text. Behind as many steps as there are places,
repetitions lead to no more of them. -/
def motion (text : Array Char) : Regex → Motion
  | empty => .stay
  | chars s => .step (placesWhere (fun i => text[i]?.any (s.contains ·.toNat)) text.size)
  | look l => .keep (placesWhere (fun i =>
      l.holds (if i = 0 then none else text[i - 1]?) text[i]?) (text.size + 1))
  | sequence r s => .andThen (r.motion text) (s.motion text)
  | choice r s => .either (r.motion text) (s.motion text)
  | repeated least most r =>
    let m := r.motion text
    let bound := text.size + 1
    .andThen (.times (min least bound) m) <|
      match most with
      | none => .rows (m.closure bound bound)
      | some most => .upTo (min (most - least) bound) m
  | capture r => r.motion text

def isIn (r : Regex) (text : String) : Bool :=
  let cs := text.toList.toArray
  (r.motion cs).apply (placesWhere (fun _ => true) (cs.size + 1)) ≠ 0

end TwelveBit.Regex
