import TwelveBit.Unicode.Letter
import TwelveBit.Regex.Bracket
/-!
Reading whole patterns: sequences, alternatives, repetitions and groups. What stands to the left of
the cursor is kept as a draft, with a level for every group that is still open.
-/
namespace TwelveBit.Regex
open Reading

structure Level where
  start : Place
  branches : List Pattern := []
  place : Place
  parts : List Pattern := []

namespace Level

def begin (place : Place) : Level := { start := place, place := place }

def push (l : Level) (p : Pattern) : Level := { l with parts := p :: l.parts }

def branch (l : Level) (stop : Place) : Pattern := .ofParts ⟨l.place, stop⟩ l.parts.reverse

def divide (l : Level) (bar behind : Place) : Level :=
  { l with branches := l.branch bar :: l.branches, place := behind, parts := [] }

def close (l : Level) (stop : Place) : Pattern :=
  match l.branches with
  | [] => l.branch stop
  | branches => .alternatives ⟨l.start, stop⟩ (branches.reverse ++ [l.branch stop])

def operand? (l : Level) : Option (Pattern × Level) :=
  match l.parts with
  | [] | .empty _ :: _ | .flags _ _ :: _ => none
  | p :: parts => some (p, { l with parts := parts })

end Level

structure OpenGroup where
  outer : Level
  captures : Bool
  changes : FlagChanges
  opening : Span
  spaced : Bool

structure Draft where
  level : Level
  groups : List OpenGroup := []
  names : List (String × Span) := []

def Draft.push (d : Draft) (p : Pattern) : Draft := { d with level := d.level.push p }

def isNameStart (c : Char) : Bool := c = '_' || Unicode.isLetter c

def isNameChar (c : Char) : Bool :=
  isNameStart c || c = '.' || c = '[' || c = ']' || Unicode.isNumber c

def readName (names : List (String × Span)) : Reading (String × Span) := do
  let start ← place
  let first ← demand .groupNameUnexpectedEnd start
  if first ≠ '>' ∧ !isNameStart first then fail .groupNameInvalid (← get).charSpan
  let name ← modifyGet (·.takeWhile isNameChar (·.bump))
  let stop ← place
  if (← demand .groupNameUnexpectedEnd stop) ≠ '>' then fail .groupNameInvalid (← get).charSpan
  bump
  if name.isEmpty then fail .groupNameEmpty ⟨start, start⟩
  let name := String.ofList name
  let span : Span := ⟨start, stop⟩
  match names.lookup name with
  | some earlier => fail .groupNameDuplicate span (some earlier)
  | none => return (name, span)

def readFlags (minus? : Option Span) (seen : List (Flag × Span)) : Nat → Reading FlagChanges
  | 0 => return []
  | n + 1 => do
    let c ← get
    match c.char? with
    | none => fail .flagUnexpectedEnd c.here
    | some ':' | some ')' => return []
    | some '-' =>
      if let some minus := minus? then fail .flagRepeatedNegation c.charSpan (some minus)
      bump
      match (← get).char? with
      | none => fail .flagUnexpectedEnd (← get).here
      | some ':' | some ')' => fail .flagDanglingNegation c.charSpan
      | some _ => readFlags (some c.charSpan) seen n
    | some letter =>
      match Flag.ofChar? letter with
      | none => fail .flagUnrecognized c.charSpan
      | some flag =>
        if let some earlier := seen.lookup flag then
          fail .flagDuplicate c.charSpan (some earlier)
        bump
        return (flag, minus?.isNone) :: (← readFlags minus? ((flag, c.charSpan) :: seen) n)

def FlagChanges.value? (changes : FlagChanges) (flag : Flag) : Option Bool := changes.lookup flag

def Draft.open (d : Draft) (captures : Bool) (changes : FlagChanges) (opening : Span) :
    Reading Draft := do
  let c ← get
  let group : OpenGroup := ⟨d.level, captures, changes, opening, c.spaced⟩
  set { c with spaced := (changes.value? .spaced).getD c.spaced }
  return { d with level := .begin c.place, groups := group :: d.groups }

def lookArounds : List String := ["?=", "?!", "?<=", "?<!"]

def Draft.readOpen (d : Draft) : Reading Draft := do
  let opening := (← get).charSpan
  bumpSkip
  let inside ← get
  if let some c := lookArounds.findSome? inside.bumpText? then
    fail .lookAround ⟨opening.start, c.place⟩
  if let some c := (inside.bumpText? "?P<").or (inside.bumpText? "?<") then
    set c
    let named ← readName d.names
    Draft.open { d with names := named :: d.names } true [] opening
  else if let some c := inside.bumpText? "?" then
    set c
    if c.atEnd then fail .groupUnclosed opening
    let changes ← readFlags none [] (c.rest.length + 1)
    let stop ← get
    bump
    if stop.char? = some ')' then
      if changes.isEmpty then fail .repetitionMissing inside.here
      modify fun c => { c with spaced := (changes.value? .spaced).getD c.spaced }
      return d.push (.flags changes ((← get).since opening.start))
    else d.open false changes opening
  else d.open true [] opening

def Draft.readClose (d : Draft) : Reading Draft := do
  let c ← get
  match d.groups with
  | [] => fail .groupUnopened c.charSpan
  | g :: groups =>
    bump
    modify fun c => { c with spaced := g.spaced }
    let group := Pattern.group g.captures g.changes ((← get).since g.opening.start)
      (d.level.close c.place)
    return { d with level := g.outer.push group, groups := groups }

def readPreference : Reading Unit := do
  if (← get).char? = some '?' then bump

def Draft.readRepetition (d : Draft) (bounds : Reading (Nat × Option Nat)) : Reading Draft := do
  let start ← place
  match d.level.operand? with
  | none => fail .repetitionMissing (← get).here
  | some (p, level) =>
    let (least, most) ← bounds
    readPreference
    let stop ← place
    if most.any (· < least) then fail .repetitionCountInvalid ⟨start, stop⟩
    return { d with level := level.push (.repeated least most ⟨p.span.start, stop⟩ p) }

def Draft.readPart (d : Draft) : Reading Draft := do
  let c ← get
  let plain (least : Nat) (most : Option Nat) : Reading (Nat × Option Nat) := do
    bump
    return (least, most)
  match c.char? with
  | some '(' => d.readOpen
  | some ')' => d.readClose
  | some '|' =>
    bump
    return { d with level := d.level.divide c.place (← place) }
  | some '[' => return d.push (.characters (← readBracket))
  | some '?' => d.readRepetition (plain 0 (some 1))
  | some '*' => d.readRepetition (plain 0 none)
  | some '+' => d.readRepetition (plain 1 none)
  | some '\x7b' => d.readRepetition do
    bumpSkip
    readBounds c.place
  | _ => return d.push (.atom (← readAtom))

def Draft.readParts (d : Draft) : Nat → Reading Draft
  | 0 => return d
  | n + 1 => do
    modify (·.skip)
    if (← get).atEnd then return d
    readParts (← d.readPart) n

def nestLimit : Nat := 250

def Pattern.parse (text : String) : Except Problem Pattern := do
  let start : Cursor := { rest := text.toList }
  -- every part takes a character at least, so the length is enough
  let (d, c) ← (Draft.readParts { level := .begin start.place } (start.rest.length + 1)).run start
  if let g :: _ := d.groups then throw ⟨.groupUnclosed, g.opening, none⟩
  let p := d.level.close c.place
  if let some span := p.beyond? nestLimit then throw ⟨.nestLimitExceeded nestLimit, span, none⟩
  return p

end TwelveBit.Regex
