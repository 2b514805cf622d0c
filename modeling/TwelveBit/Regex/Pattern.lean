import TwelveBit.Regex.Problem
/-!
Patterns as they are written. Every part knows its span, so that a problem found later can point
at it.
-/
namespace TwelveBit.Regex

structure Literal where
  char : Char
  span : Span
  isByte : Bool := false
  deriving DecidableEq, Repr

inductive ShorthandKind where
  | digit | space | word
  deriving DecidableEq, Repr

structure Shorthand where
  kind : ShorthandKind
  negated : Bool
  span : Span
  deriving DecidableEq, Repr

structure Property where
  name : String
  hasValue : Bool
  negated : Bool
  span : Span
  deriving DecidableEq, Repr

inductive Edge where
  | boundary | notBoundary | start | stop | startHalf | stopHalf
  deriving DecidableEq, Repr

inductive Assertion where
  | startLine | endLine | startText | endText
  | word (e : Edge)
  deriving DecidableEq, Repr

inductive Atom where
  | literal (l : Literal)
  | shorthand (s : Shorthand)
  | property (p : Property)
  | dot (span : Span)
  | assertion (a : Assertion) (span : Span)
  deriving DecidableEq, Repr

def Atom.span : Atom → Span
  | literal l => l.span
  | shorthand s => s.span
  | property p => p.span
  | dot span | assertion _ span => span

inductive NamedSet where
  | alnum | alpha | ascii | blank | cntrl | digit | graph | lower | print | punct | space | upper
  | word | xdigit
  deriving DecidableEq, Repr

def NamedSet.ofName? : String → Option NamedSet
  | "alnum" => some alnum
  | "alpha" => some alpha
  | "ascii" => some ascii
  | "blank" => some blank
  | "cntrl" => some cntrl
  | "digit" => some digit
  | "graph" => some graph
  | "lower" => some lower
  | "print" => some print
  | "punct" => some punct
  | "space" => some space
  | "upper" => some upper
  | "word" => some word
  | "xdigit" => some xdigit
  | _ => none

inductive SetOp where
  | intersection | difference | symmetricDifference
  deriving DecidableEq, Repr

inductive CharClass where
  | empty (span : Span)
  | literal (l : Literal)
  | range (first last : Literal)
  | named (name : NamedSet) (negated : Bool) (span : Span)
  | shorthand (s : Shorthand)
  | property (p : Property)
  | bracket (negated : Bool) (span : Span) (contents : CharClass)
  | union (span : Span) (parts : List CharClass)
  | combined (op : SetOp) (left right : CharClass)
  deriving Repr

def CharClass.span : CharClass → Span
  | literal l => l.span
  | range first last => ⟨first.span.start, last.span.stop⟩
  | shorthand s => s.span
  | property p => p.span
  | empty span | named _ _ span | bracket _ span _ | union span _ => span
  | combined _ left right => ⟨left.span.start, right.span.stop⟩

def CharClass.ofParts (place : Place) (parts : List CharClass) : CharClass :=
  match parts, parts.getLast? with
  | [part], _ => part
  | first :: _, some last => .union ⟨first.span.start, last.span.stop⟩ parts
  | _, _ => .empty ⟨place, place⟩

inductive Flag where
  | caseless | multiLine | dotAll | swapGreed | unicode | carriageReturns | spaced
  deriving DecidableEq, Repr

def Flag.ofChar? : Char → Option Flag
  | 'i' => some caseless
  | 'm' => some multiLine
  | 's' => some dotAll
  | 'U' => some swapGreed
  | 'u' => some unicode
  | 'R' => some carriageReturns
  | 'x' => some spaced
  | _ => none

abbrev FlagChanges := List (Flag × Bool)

inductive Pattern where
  | empty (span : Span)
  | flags (changes : FlagChanges) (span : Span)
  | atom (a : Atom)
  | characters (c : CharClass)
  | repeated (least : Nat) (most : Option Nat) (span : Span) (p : Pattern)
  | group (captures : Bool) (changes : FlagChanges) (span : Span) (p : Pattern)
  | alternatives (span : Span) (ps : List Pattern)
  | sequence (span : Span) (ps : List Pattern)
  deriving Repr

namespace Pattern

def span : Pattern → Span
  | empty span | flags _ span | repeated _ _ span _ | group _ _ span _ | alternatives span _
  | sequence span _ => span
  | atom a => a.span
  | characters c => c.span

def ofParts (span : Span) : List Pattern → Pattern
  | [] => empty span
  | [p] => p
  | ps => sequence span ps

end Pattern

mutual

def CharClass.beyond? (room : Nat) : CharClass → Option Span
  | .bracket _ span contents =>
    match room with
    | 0 => some span
    | room + 1 => contents.beyond? room
  | .union span parts =>
    match room with
    | 0 => some span
    | room + 1 => CharClass.anyBeyond? room parts
  | .combined _ left right =>
    match room with
    | 0 => some ⟨left.span.start, right.span.stop⟩
    | room + 1 => (left.beyond? room).or (right.beyond? room)
  | _ => none

def CharClass.anyBeyond? (room : Nat) : List CharClass → Option Span
  | [] => none
  | c :: cs => (c.beyond? room).or (CharClass.anyBeyond? room cs)

end

mutual

def Pattern.beyond? (room : Nat) : Pattern → Option Span
  | .repeated _ _ span p | .group _ _ span p =>
    match room with
    | 0 => some span
    | room + 1 => p.beyond? room
  | .alternatives span ps | .sequence span ps =>
    match room with
    | 0 => some span
    | room + 1 => Pattern.anyBeyond? room ps
  | .characters c => c.beyond? room
  | _ => none

def Pattern.anyBeyond? (room : Nat) : List Pattern → Option Span
  | [] => none
  | p :: ps => (p.beyond? room).or (Pattern.anyBeyond? room ps)

end

end TwelveBit.Regex
