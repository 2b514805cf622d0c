import TwelveBit.CharSet
import TwelveBit.Regex.Pattern
/-!
Regular expressions by what they match: sets of characters, looks at the place between two
characters, and the ways to put expressions together.
-/
namespace TwelveBit

namespace Regex

inductive Look where
  | startText | endText
  | startLine | endLine
  | startAnyLine | endAnyLine
  | edge (e : Edge) (ascii : Bool)
  deriving DecidableEq, Repr

end Regex

inductive Regex where
  | empty
  | chars (s : CharSet)
  | look (l : Regex.Look)
  | sequence (r s : Regex)
  | choice (r s : Regex)
  | repeated (least : Nat) (most : Option Nat) (r : Regex)
  | capture (r : Regex)
  deriving DecidableEq, Repr

namespace Regex

def isWidthless : Regex → Bool
  | empty | look _ => true
  | chars _ => false
  | sequence r s | choice r s => r.isWidthless && s.isWidthless
  | repeated _ _ r | capture r => r.isWidthless

def repetition (least : Nat) (most : Option Nat) (r : Regex) : Regex :=
  let (least, most) :=
    if r.isWidthless then (min least 1, some (min (most.getD 1) 1)) else (least, most)
  match least, most with
  | 0, some 0 => empty
  | 1, some 1 => r
  | least, most => repeated least most r

def ofSequence : List Regex → Regex
  | [] => empty
  | [r] => r
  | r :: rs => sequence r (ofSequence rs)

def set? : Regex → Option CharSet
  | chars s => some s
  | _ => none

def ofChoices : List Regex → Regex
  | [] => chars {}
  | [r] => r
  | r :: rs =>
    match r.set?, (ofChoices rs).set? with
    | some s, some t => chars (s.union t)
    | _, _ => choice r (ofChoices rs)

def needsScripts : Regex → Bool
  | empty | chars _ => false
  | look (.edge _ ascii) => !ascii
  | look _ => false
  | sequence r s | choice r s => r.needsScripts || s.needsScripts
  | repeated _ _ r | capture r => r.needsScripts

def encodedSize (n : Nat) : Nat :=
  if n < 0x80 then 1 else if n < 0x800 then 2 else if n < 0x10000 then 3 else 4

def setSize (s : CharSet) : Nat :=
  match s.intervals with
  | [] => 32
  | [i] =>
    if i.low = i.high then 32 * encodedSize i.low
    else if s.isAscii then 64
    else 964
  | is => if s.isAscii then 64 + 8 * is.length else 928 + 36 * (is.filter (·.low < 0x80)).length

def size : Regex → Nat
  | empty | look _ => 32
  | chars s => setSize s
  | sequence r s => r.size + s.size
  | choice r s => 40 + r.size + s.size
  | repeated least none r => max least 1 * r.size + 40
  | repeated least (some most) r => most * r.size + 40 * (most - least) + 32
  | capture r => 64 + r.size

end Regex
end TwelveBit
