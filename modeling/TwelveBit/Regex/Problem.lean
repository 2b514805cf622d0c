import TwelveBit.Regex.Cursor
/-!
What can be wrong with a pattern, and the report of it: the pattern with marks under the places
that matter, and one sentence.
-/
namespace TwelveBit.Regex

inductive Cause where
  | classEscapeInvalid | classRangeInvalid | classRangeLiteral | classUnclosed
  | decimalInvalid
  | escapeHexEmpty | escapeHexInvalid | escapeHexInvalidDigit | escapeUnexpectedEnd
  | escapeUnrecognized
  | flagDanglingNegation | flagDuplicate | flagRepeatedNegation | flagUnexpectedEnd
  | flagUnrecognized
  | groupNameDuplicate | groupNameEmpty | groupNameInvalid | groupNameUnexpectedEnd
  | groupUnclosed | groupUnopened
  | nestLimitExceeded (limit : Nat)
  | repetitionCountInvalid | repetitionCountEmpty | repetitionCountUnclosed | repetitionMissing
  | boundaryUnclosed | boundaryUnrecognized | boundaryOrRepetitionUnexpectedEnd
  | propertyInvalid
  | backreference | lookAround
  | unicodeNotAllowed | invalidEncoding | propertyNotFound | propertyValueNotFound
  | unicodeShorthand | unicodeCase
  deriving DecidableEq, Repr

def Cause.message : Cause → String
  | classEscapeInvalid => "invalid escape sequence found in character class"
  | classRangeInvalid => "invalid character class range, the start must be <= the end"
  | classRangeLiteral => "invalid range boundary, must be a literal"
  | classUnclosed => "unclosed character class"
  | decimalInvalid => "decimal literal invalid"
  | escapeHexEmpty => "hexadecimal literal empty"
  | escapeHexInvalid => "hexadecimal literal is not a Unicode scalar value"
  | escapeHexInvalidDigit => "invalid hexadecimal digit"
  | escapeUnexpectedEnd => "incomplete escape sequence, reached end of pattern prematurely"
  | escapeUnrecognized => "unrecognized escape sequence"
  | flagDanglingNegation => "dangling flag negation operator"
  | flagDuplicate => "duplicate flag"
  | flagRepeatedNegation => "flag negation operator repeated"
  | flagUnexpectedEnd => "expected flag but got end of regex"
  | flagUnrecognized => "unrecognized flag"
  | groupNameDuplicate => "duplicate capture group name"
  | groupNameEmpty => "empty capture group name"
  | groupNameInvalid => "invalid capture group character"
  | groupNameUnexpectedEnd => "unclosed capture group name"
  | groupUnclosed => "unclosed group"
  | groupUnopened => "unopened group"
  | nestLimitExceeded limit =>
    "exceed the maximum number of nested parentheses/brackets (" ++ toString limit ++ ")"
  | repetitionCountInvalid => "invalid repetition count range, the start must be <= the end"
  | repetitionCountEmpty => "repetition quantifier expects a valid decimal"
  | repetitionCountUnclosed => "unclosed counted repetition"
  | repetitionMissing => "repetition operator missing expression"
  | boundaryUnclosed =>
    "special word boundary assertion is either unclosed or contains an invalid character"
  | boundaryUnrecognized => "unrecognized special word boundary assertion, " ++
    "valid choices are: start, end, start-half or end-half"
  | boundaryOrRepetitionUnexpectedEnd =>
    "found either the beginning of a special word boundary or a bounded repetition " ++
    "on a \\b with an opening brace, but no closing brace"
  | propertyInvalid => "invalid Unicode character class"
  | backreference => "backreferences are not supported"
  | lookAround => "look-around, including look-ahead and look-behind, is not supported"
  | unicodeNotAllowed => "Unicode not allowed here"
  | invalidEncoding => "pattern can match invalid UTF-8"
  | propertyNotFound => "Unicode property not found"
  | propertyValueNotFound => "Unicode property value not found"
  | unicodeShorthand =>
    "Unicode-aware Perl class not found (make sure the unicode-perl feature is enabled)"
  | unicodeCase => "Unicode-aware case insensitivity matching is not available " ++
    "(make sure the unicode-case feature is enabled)"

structure Problem where
  cause : Cause
  span : Span
  related : Option Span := none
  deriving DecidableEq, Repr

namespace Span

def isOneLine (s : Span) : Bool := s.start.line = s.stop.line

def le (s t : Span) : Bool :=
  s.start.offset < t.start.offset ||
    (s.start.offset = t.start.offset && s.stop.offset ≤ t.stop.offset)

end Span

namespace Problem

def spans (p : Problem) : List Span := (p.span :: p.related.toList).mergeSort Span.le

def blanks (n : Nat) : List Char := List.replicate n ' '

def marksFrom (column : Nat) : List Span → List Char
  | [] => []
  | s :: ss =>
    let gap := s.start.column - column
    let width := max 1 (s.stop.column - s.start.column)
    blanks gap ++ List.replicate width '^' ++ marksFrom (column + gap + width) ss

def shownLine (width : Nat) (spans : List Span) (number : Nat) (line : String) : List String :=
  let text := toString number
  let margin :=
    if width = 0 then "    " else String.ofList (text.toList.leftpad width ' ') ++ ": "
  let marked := spans.filter (·.start.line = number)
  (margin ++ line) ::
    if marked.isEmpty then []
    else [String.ofList (blanks margin.length ++ marksFrom 1 marked)]

def rangeNote (s : Span) : String :=
  "on line " ++ toString s.start.line ++ " (column " ++ toString s.start.column ++
    ") through line " ++ toString s.stop.line ++ " (column " ++ toString (s.stop.column - 1) ++ ")"

def message (pattern : String) (p : Problem) : String :=
  let lines := Text.lines pattern
  let (short, long) := p.spans.partition (·.isOneLine)
  let severalLines := pattern.toList.contains '\n'
  let count := lines.length + if pattern.toList.getLast? = some '\n' then 1 else 0
  let width := if count ≤ 1 then 0 else (toString count).length
  let shown := (lines.zipIdx 1).flatMap fun (line, number) => shownLine width short number line
  let divider := String.ofList (List.replicate 79 '~')
  let body := if severalLines then divider :: shown ++ divider :: long.map rangeNote else shown
  String.intercalate "\n" ("regex parse error:" :: body ++ ["error: " ++ p.cause.message])

end Problem
end TwelveBit.Regex
