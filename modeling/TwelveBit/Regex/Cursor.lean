import TwelveBit.Text
/-!
Places in a pattern, and the cursor that stands at one while the pattern is read. Between the parts
of a spaced pattern stand blanks and comments, which the cursor steps over.
-/
namespace TwelveBit.Regex

structure Place where
  offset : Nat := 0
  line : Nat := 1
  column : Nat := 1
  deriving DecidableEq, Repr

def Place.next (p : Place) (c : Char) : Place :=
  if c = '\n' then ⟨p.offset + 1, p.line + 1, 1⟩ else ⟨p.offset + 1, p.line, p.column + 1⟩

structure Span where
  start : Place
  stop : Place
  deriving DecidableEq, Repr

structure Cursor where
  place : Place := {}
  rest : List Char
  spaced : Bool := false
  deriving Repr

namespace Cursor

def char? (c : Cursor) : Option Char := c.rest.head?

def atEnd (c : Cursor) : Bool := c.rest.isEmpty

def here (c : Cursor) : Span := ⟨c.place, c.place⟩

def charSpan (c : Cursor) : Span :=
  match c.rest with
  | [] => c.here
  | ch :: _ => ⟨c.place, c.place.next ch⟩

def since (c : Cursor) (start : Place) : Span := ⟨start, c.place⟩

def bump (c : Cursor) : Cursor :=
  match c.rest with
  | [] => c
  | ch :: rest => { c with place := c.place.next ch, rest := rest }

def skipFrom (inComment : Bool) (p : Place) : List Char → Place × List Char
  | [] => (p, [])
  | c :: cs =>
    if inComment then skipFrom (c ≠ '\n') (p.next c) cs
    else if Text.isBlank c then skipFrom false (p.next c) cs
    else if c = '#' then skipFrom true (p.next c) cs
    else (p, c :: cs)

def skip (c : Cursor) : Cursor :=
  if c.spaced then
    let (place, rest) := skipFrom false c.place c.rest
    { c with place := place, rest := rest }
  else c

def bumpSkip (c : Cursor) : Cursor := c.bump.skip

def bumpText? (text : String) (c : Cursor) : Option Cursor :=
  if text.toList.isPrefixOf c.rest then some (text.toList.foldl (fun c _ => c.bump) c) else none

def behindBlanks? (inComment : Bool) : List Char → Option Char
  | [] => none
  | c :: cs =>
    if Text.isBlank c then behindBlanks? inComment cs
    else if c = '#' ∧ !inComment then behindBlanks? true cs
    else some c

def peek? (c : Cursor) : Option Char := c.rest.tail.head?

def peekSkip? (c : Cursor) : Option Char :=
  if c.spaced then (behindBlanks? false c.rest.tail).or c.peek? else c.peek?

def readWhile (p : Char → Bool) (step : Cursor → Cursor) : Nat → Cursor → List Char × Cursor
  | 0, c => ([], c)
  | n + 1, c =>
    match c.char? with
    | none => ([], c)
    | some ch =>
      if p ch then
        let (cs, c) := readWhile p step n (step c)
        (ch :: cs, c)
      else ([], c)

def takeWhile (p : Char → Bool) (step : Cursor → Cursor) (c : Cursor) : List Char × Cursor :=
  c.readWhile p step c.rest.length

end Cursor
end TwelveBit.Regex
