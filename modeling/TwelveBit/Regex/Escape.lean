import TwelveBit.Hex
import TwelveBit.Regex.Pattern
/-!
Reading the single parts of a pattern: characters, escapes behind a backslash, and counts.
-/
namespace TwelveBit.Regex

abbrev Reading := StateT Cursor (Except Problem)

namespace Reading

def fail {α : Type} (cause : Cause) (span : Span) (related : Option Span := none) : Reading α :=
  throw ⟨cause, span, related⟩

def bump : Reading Unit := modify (·.bump)

def bumpSkip : Reading Unit := modify (·.bumpSkip)

def demand (cause : Cause) (start : Place) : Reading Char := do
  match (← get).char? with
  | some c => return c
  | none => fail cause ((← get).since start)

def takeWhile (p : Char → Bool) : Reading (List Char) :=
  modifyGet (·.takeWhile p (·.bumpSkip))

def place : Reading Place := return (← get).place

end Reading

open Reading

def isMeta (c : Char) : Bool :=
  c ∈ ['\\', '.', '+', '*', '?', '(', ')', '|', '[', ']', '\x7b', '\x7d', '^', '$', '#', '&', '-',
    '~']

def isEscapable (c : Char) : Bool :=
  isMeta c || (c.toNat < 0x80 && !c.isAlphanum && c ≠ '<' && c ≠ '>')

def isHexDigit (c : Char) : Bool := (Hex.digitValue? c).isSome

def scalar? (digits : List Char) : Option Char := do
  let n ← Hex.value? digits
  if n.isValidChar then some (Char.ofNat n) else none

def readHexDigits : Nat → Reading (List Char)
  | 0 => return []
  | count + 1 => do
    let digit ← demand .escapeUnexpectedEnd (← place)
    if isHexDigit digit then
      bumpSkip
      return digit :: (← readHexDigits count)
    else fail .escapeHexInvalidDigit (← get).charSpan

def readHexBraces (start : Place) : Reading Literal := do
  let brace ← place
  let inside := (← get).charSpan.stop
  bumpSkip
  let digits ← takeWhile isHexDigit
  if (← demand .escapeUnexpectedEnd brace) ≠ '\x7d' then
    fail .escapeHexInvalidDigit (← get).charSpan
  let stop ← place
  bumpSkip
  if digits.isEmpty then fail .escapeHexEmpty ((← get).since brace)
  match scalar? digits with
  | some c => return ⟨c, (← get).since start, false⟩
  | none => fail .escapeHexInvalid ⟨inside, stop⟩

def readHex (start : Place) (letter : Char) : Reading Literal := do
  bumpSkip
  if (← demand .escapeUnexpectedEnd (← place)) = '\x7b' then readHexBraces start
  else
    let first ← place
    let digits ← readHexDigits (if letter = 'x' then 2 else if letter = 'u' then 4 else 8)
    match scalar? digits with
    | some c => return ⟨c, (← get).since start, letter = 'x'⟩
    | none => fail .escapeHexInvalid ((← get).since first)

def readProperty (start : Place) (negated : Bool) : Reading Property := do
  bumpSkip
  let c ← demand .escapeUnexpectedEnd (← place)
  if c = '\x7b' then
    bumpSkip
    let name ← takeWhile (· ≠ '\x7d')
    let _ ← demand .escapeUnexpectedEnd (← place)
    bump
    let hasValue := name.any fun c => c = ':' || c = '='
    return ⟨String.ofList name, hasValue, negated, (← get).since start⟩
  else if c = '\\' then fail .propertyInvalid (← get).charSpan
  else
    bumpSkip
    return ⟨c.toString, false, negated, (← get).since start⟩

/-- Reads the kind of a word's edge in braces, as in `\b{start}`. Braces with anything else than a
word belong to a repetition and are left alone. -/
def readEdge? (start : Place) : Reading (Option Edge) := do
  let before ← get
  if before.char? ≠ some '\x7b' then return none
  let isNameChar (c : Char) := c.isAlpha || c = '-'
  bumpSkip
  let first ← place
  if !isNameChar (← demand .boundaryOrRepetitionUnexpectedEnd start) then
    set before
    return none
  let name ← takeWhile isNameChar
  if (← get).char? ≠ some '\x7d' then fail .boundaryUnclosed ((← get).since before.place)
  let stop ← place
  bump
  match String.ofList name with
  | "start" => return some .start
  | "end" => return some .stop
  | "start-half" => return some .startHalf
  | "end-half" => return some .stopHalf
  | _ => fail .boundaryUnrecognized ⟨first, stop⟩

def control? : Char → Option Char
  | 'a' => some '\x07'
  | 'f' => some '\x0c'
  | 't' => some '\t'
  | 'n' => some '\n'
  | 'r' => some '\r'
  | 'v' => some '\x0b'
  | _ => none

def assertion? : Char → Option Assertion
  | 'A' => some .startText
  | 'z' => some .endText
  | 'b' => some (.word .boundary)
  | 'B' => some (.word .notBoundary)
  | '<' => some (.word .start)
  | '>' => some (.word .stop)
  | _ => none

def shorthand? : Char → Option (ShorthandKind × Bool)
  | 'd' => some (.digit, false)
  | 's' => some (.space, false)
  | 'w' => some (.word, false)
  | 'D' => some (.digit, true)
  | 'S' => some (.space, true)
  | 'W' => some (.word, true)
  | _ => none

def readEscape : Reading Atom := do
  let start ← place
  bump
  let c ← demand .escapeUnexpectedEnd start
  if c.isDigit then fail .backreference ⟨start, (← get).charSpan.stop⟩
  if c = 'x' ∨ c = 'u' ∨ c = 'U' then return .literal (← readHex start c)
  if c = 'p' ∨ c = 'P' then return .property (← readProperty start (c = 'P'))
  bump
  let span := (← get).since start
  if let some (kind, negated) := shorthand? c then return .shorthand ⟨kind, negated, span⟩
  if isEscapable c then return .literal ⟨c, span, false⟩
  if let some control := control? c then return .literal ⟨control, span, false⟩
  match assertion? c with
  | none => fail .escapeUnrecognized span
  | some a =>
    let edge? ← if c = 'b' then readEdge? start else pure none
    return .assertion ((edge?.map Assertion.word).getD a) ((← get).since start)

def readAtom : Reading Atom := do
  let span := (← get).charSpan
  match (← get).char? with
  | some '\\' => readEscape
  | some '.' =>
    bump
    return .dot span
  | some '^' =>
    bump
    return .assertion .startLine span
  | some '$' =>
    bump
    return .assertion .endLine span
  | some c =>
    bump
    return .literal ⟨c, span, false⟩
  | none => fail .escapeUnexpectedEnd span

def countLimit : Nat := 0x100000000

def readCount : Reading (Except Problem Nat) := do
  modify fun c => (c.takeWhile Text.isBlank (·.bump)).2
  let start ← place
  let digits ← takeWhile (·.isDigit)
  let span := (← get).since start
  let _ ← takeWhile Text.isBlank
  if digits.isEmpty then return .error ⟨.repetitionCountEmpty, span, none⟩
  let n := digits.foldl (fun n d => 10 * n + (d.toNat - '0'.toNat)) 0
  return if n < countLimit then .ok n else .error ⟨.decimalInvalid, span, none⟩

def readBounds (start : Place) : Reading (Nat × Option Nat) := do
  let _ ← demand .repetitionCountUnclosed start
  let least ← readCount
  let c ← demand .repetitionCountUnclosed start
  let bounds : Nat × Option Nat ←
    if c = ',' then do
      bumpSkip
      let c ← demand .repetitionCountUnclosed start
      let least ← (least : Except Problem Nat)
      if c = '\x7d' then pure (least, none)
      else do
        let most ← (← readCount : Except Problem Nat)
        pure (least, some most)
    else do
      let least ← (least : Except Problem Nat)
      pure (least, some least)
  if (← get).char? ≠ some '\x7d' then fail .repetitionCountUnclosed ((← get).since start)
  bumpSkip
  return bounds

end TwelveBit.Regex
