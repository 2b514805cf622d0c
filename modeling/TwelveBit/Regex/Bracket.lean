import TwelveBit.Regex.Escape
/-!
Reading sets of characters in brackets. Brackets nest, and inside of them stand single characters,
ranges, named sets and operations on sets, which are read from left to right.
-/
namespace TwelveBit.Regex
open Reading

structure OpenBracket where
  negated : Bool
  opening : Span
  pending : Option (SetOp × CharClass) := none
  place : Place
  parts : List CharClass

namespace OpenBracket

def push (b : OpenBracket) (c : CharClass) : OpenBracket := { b with parts := c :: b.parts }

def contents (b : OpenBracket) : CharClass :=
  let side := CharClass.ofParts b.place b.parts.reverse
  match b.pending with
  | none => side
  | some (op, left) => .combined op left side

def operate (b : OpenBracket) (op : SetOp) (place : Place) : OpenBracket :=
  { b with pending := some (op, b.contents), place := place, parts := [] }

def close (b : OpenBracket) (stop : Place) : CharClass :=
  .bracket b.negated ⟨b.opening.start, stop⟩ b.contents

end OpenBracket

def readHyphens (start : Place) : Nat → Reading (List CharClass)
  | 0 => return []
  | n + 1 => do
    if (← get).char? = some '-' then
      let hyphen := CharClass.literal ⟨'-', (← get).charSpan, false⟩
      bumpSkip
      if (← get).atEnd then fail .classUnclosed ⟨start, start⟩
      return hyphen :: (← readHyphens start n)
    else return []

def readOpening : Reading OpenBracket := do
  let start ← place
  bumpSkip
  let negated := (← demand .classUnclosed start) = '^'
  if negated then
    bumpSkip
    let _ ← demand .classUnclosed start
  let first ← place
  let hyphens ← readHyphens start (← get).rest.length
  if hyphens.isEmpty ∧ (← get).char? = some ']' then
    let closing := CharClass.literal ⟨']', (← get).charSpan, false⟩
    bumpSkip
    let _ ← demand .classUnclosed start
    return ⟨negated, (← get).since start, none, first, [closing]⟩
  else return ⟨negated, (← get).since start, none, first, hyphens.reverse⟩

def readNamed? : Reading (Option CharClass) := do
  let before ← get
  let named? : Option (CharClass × Cursor) := do
    let c ← before.bumpText? "[:"
    let (negated, c) := match c.bumpText? "^" with
      | some c => (true, c)
      | none => (false, c)
    let (name, c) := c.takeWhile (· ≠ ':') (·.bump)
    let c ← c.bumpText? ":]"
    let name ← NamedSet.ofName? (String.ofList name)
    return (.named name negated (c.since before.place), c)
  match named? with
  | some (named, c) =>
    set c
    return some named
  | none => return none

def readMember : Reading Atom := do
  let c ← get
  match c.char? with
  | some '\\' => readEscape
  | some ch =>
    bump
    return .literal ⟨ch, c.charSpan, false⟩
  | none => fail .classUnclosed c.here

def Atom.member : Atom → Reading CharClass
  | .literal l => return .literal l
  | .shorthand s => return .shorthand s
  | .property p => return .property p
  | a => fail .classEscapeInvalid a.span

def Atom.bound : Atom → Reading Literal
  | .literal l => return l
  | a => fail .classRangeLiteral a.span

/-- Reads a member or a range. A hyphen in front of a closing bracket or of another hyphen makes no
range. -/
def readRange (opening : Span) : Reading CharClass := do
  let first ← readMember
  modify (·.skip)
  let c ← get
  if c.atEnd then fail .classUnclosed opening
  if c.char? ≠ some '-' ∨ c.peekSkip? = some ']' ∨ c.peekSkip? = some '-' then first.member
  else
    bumpSkip
    if (← get).atEnd then fail .classUnclosed opening
    let last ← readMember
    let low ← first.bound
    let high ← last.bound
    if high.char < low.char then fail .classRangeInvalid ⟨low.span.start, high.span.stop⟩
    return .range low high

def setOp? : List Char → Option SetOp
  | '&' :: '&' :: _ => some .intersection
  | '-' :: '-' :: _ => some .difference
  | '~' :: '~' :: _ => some .symmetricDifference
  | _ => none

def readContents : Nat → OpenBracket → List OpenBracket → Reading CharClass
  | 0, b, _ => fail .classUnclosed b.opening
  | n + 1, b, outer => do
    modify (·.skip)
    match (← get).rest with
    | [] => fail .classUnclosed b.opening
    | '[' :: _ =>
      match ← readNamed? with
      | some named => readContents n (b.push named) outer
      | none => readContents n (← readOpening) (b :: outer)
    | ']' :: _ =>
      bump
      let closed := b.close (← place)
      match outer with
      | [] => return closed
      | parent :: outer => readContents n (parent.push closed) outer
    | rest =>
      match setOp? rest with
      | some op =>
        bump
        bump
        readContents n (b.operate op (← place)) outer
      | none => readContents n (b.push (← readRange b.opening)) outer

def readBracket : Reading CharClass := do
  let bound := (← get).rest.length
  readContents bound (← readOpening) []

end TwelveBit.Regex
