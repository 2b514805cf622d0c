import TwelveBit.Regex.Expression
/-!
From the written pattern to its meaning, under the flags that are in force from place to place. A
group keeps the flags that it sets to itself.
-/
namespace TwelveBit.Regex

structure Mode where
  caseless : Bool := false
  multiLine : Bool := false
  dotAll : Bool := false
  unicode : Bool := true
  carriageReturns : Bool := false
  deriving DecidableEq, Repr

namespace Mode

def set (m : Mode) : Flag × Bool → Mode
  | (.caseless, b) => { m with caseless := b }
  | (.multiLine, b) => { m with multiLine := b }
  | (.dotAll, b) => { m with dotAll := b }
  | (.unicode, b) => { m with unicode := b }
  | (.carriageReturns, b) => { m with carriageReturns := b }
  | (.swapGreed, _) | (.spaced, _) => m

def change (m : Mode) (changes : FlagChanges) : Mode := changes.foldl set m

end Mode

abbrev Checked := Except Problem

def refuse {α : Type} (cause : Cause) (span : Span) : Checked α := .error ⟨cause, span, none⟩

def ofRanges (ranges : List (Char × Char)) : CharSet :=
  .ofList (ranges.map fun (a, b) => .between a.toNat b.toNat)

def NamedSet.chars : NamedSet → CharSet
  | alnum => ofRanges [('0', '9'), ('A', 'Z'), ('a', 'z')]
  | alpha => ofRanges [('A', 'Z'), ('a', 'z')]
  | ascii => ofRanges [('\x00', '\x7f')]
  | blank => ofRanges [('\t', '\t'), (' ', ' ')]
  | cntrl => ofRanges [('\x00', '\x1f'), ('\x7f', '\x7f')]
  | digit => ofRanges [('0', '9')]
  | graph => ofRanges [('!', '~')]
  | lower => ofRanges [('a', 'z')]
  | print => ofRanges [(' ', '~')]
  | punct => ofRanges [('!', '/'), (':', '@'), ('[', '\x60'), ('\x7b', '~')]
  | space => ofRanges [('\t', '\r'), (' ', ' ')]
  | upper => ofRanges [('A', 'Z')]
  | word => ofRanges [('0', '9'), ('A', 'Z'), ('_', '_'), ('a', 'z')]
  | xdigit => ofRanges [('0', '9'), ('A', 'F'), ('a', 'f')]

def ShorthandKind.chars : ShorthandKind → CharSet
  | digit => NamedSet.digit.chars
  | space => NamedSet.space.chars
  | word => NamedSet.word.chars

def negate (m : Mode) (negated : Bool) (span : Span) (s : CharSet) : Checked CharSet :=
  if negated then if m.unicode then .ok s.compl else refuse .invalidEncoding span
  else .ok s

def Shorthand.chars (m : Mode) (s : Shorthand) : Checked CharSet :=
  if m.unicode then refuse .unicodeShorthand s.span else negate m s.negated s.span s.kind.chars

def Property.plainName (p : Property) : String :=
  let cs := match p.name.toList with
    | c :: d :: cs => if c.toLower = 'i' ∧ d.toLower = 's' then cs else c :: d :: cs
    | cs => cs
  let kept := cs.filter fun c => c.toNat < 0x80 && c ≠ ' ' && c ≠ '_' && c ≠ '-'
  String.ofList (kept.map Char.toLower)

def Property.chars (m : Mode) (p : Property) : Checked CharSet :=
  if !m.unicode then refuse .unicodeNotAllowed p.span
  else if !p.hasValue ∧ p.plainName ∈ ["cf", "sc", "lc"] then refuse .propertyValueNotFound p.span
  else refuse .propertyNotFound p.span

def Literal.check (m : Mode) (l : Literal) : Checked Nat :=
  if !m.unicode ∧ l.isByte ∧ 0x80 ≤ l.char.toNat then refuse .invalidEncoding l.span
  else .ok l.char.toNat

def Literal.member (m : Mode) (l : Literal) : Checked Nat := do
  let n ← l.check m
  if !m.unicode ∧ 0x80 ≤ n then refuse .unicodeNotAllowed l.span else .ok n

def CharClass.isBare : CharClass → Bool
  | .literal _ | .range _ _ => true
  | _ => false

def CharClass.hasBare : CharClass → Bool
  | .union _ parts => parts.any (·.isBare)
  | c => c.isBare

/-- Adds the other cases of letters, if case does not count. There is no table of them but for
ASCII, so with Unicode on no character can stand there as such. -/
def fold (m : Mode) (bare : Bool) (span : Span) (s : CharSet) : Checked CharSet :=
  if !m.caseless then .ok s
  else if !m.unicode then .ok s.bothCases
  else if bare then refuse .unicodeCase span
  else .ok s

def SetOp.apply : SetOp → CharSet → CharSet → CharSet
  | intersection => .inter
  | difference => .diff
  | symmetricDifference => .symmDiff

mutual

def CharClass.chars (m : Mode) : CharClass → Checked CharSet
  | .empty _ => .ok {}
  | .literal l => do return .point (← l.member m)
  | .range first last => do return ⟨[.between (← first.member m) (← last.member m)]⟩
  | .named name negated span => do negate m negated span (← fold m true span name.chars)
  | .shorthand s => s.chars m
  | .property p => p.chars m
  | .bracket negated span contents => do
    negate m negated span (← fold m contents.hasBare span (← contents.chars m))
  | .union _ parts => CharClass.unionChars m parts
  | .combined op left right => do
    let s ← left.chars m
    let t ← right.chars m
    -- the cases of the right side are added first, so its objection comes first
    let t ← fold m right.hasBare right.span t
    let s ← fold m left.hasBare left.span s
    return op.apply s t

def CharClass.unionChars (m : Mode) : List CharClass → Checked CharSet
  | [] => .ok {}
  | c :: cs => do
    let s ← c.chars m
    return s.union (← CharClass.unionChars m cs)

end

def Mode.dot (m : Mode) : CharSet :=
  if m.dotAll then .all
  else if m.carriageReturns then (ofRanges [('\n', '\n'), ('\r', '\r')]).compl
  else (CharSet.point '\n'.toNat).compl

def Mode.look (m : Mode) : Assertion → Look
  | .startText => .startText
  | .endText => .endText
  | .startLine =>
    if !m.multiLine then .startText else if m.carriageReturns then .startAnyLine else .startLine
  | .endLine =>
    if !m.multiLine then .endText else if m.carriageReturns then .endAnyLine else .endLine
  | .word e => .edge e !m.unicode

def Atom.meaning (m : Mode) : Atom → Checked Regex
  | .literal l => do
    let n ← l.check m
    return .chars (← fold m true l.span (.point n))
  | .shorthand s => do return .chars (← s.chars m)
  | .property p => do return .chars (← p.chars m)
  | .dot span => if m.unicode then .ok (.chars m.dot) else refuse .invalidEncoding span
  | .assertion a _ => .ok (.look (m.look a))

mutual

def Pattern.meaning (m : Mode) : Pattern → Checked (Regex × Mode)
  | .empty _ => .ok (.empty, m)
  | .flags changes _ => .ok (.empty, m.change changes)
  | .atom a => do return (← a.meaning m, m)
  | .characters c => do return (.chars (← c.chars m), m)
  | .repeated least most _ p => do
    let (r, m) ← p.meaning m
    return (.repetition least most r, m)
  | .group captures changes _ p => do
    let (r, _) ← p.meaning (m.change changes)
    return (if captures then .capture r else r, m)
  | .alternatives _ ps => do
    let (rs, m) ← Pattern.meanings m ps
    return (.ofChoices rs, m)
  | .sequence _ ps => do
    let (rs, m) ← Pattern.meanings m ps
    return (.ofSequence (rs.filter (· ≠ .empty)), m)

def Pattern.meanings (m : Mode) : List Pattern → Checked (List Regex × Mode)
  | [] => .ok ([], m)
  | p :: ps => do
    let (r, m) ← p.meaning m
    let (rs, m) ← Pattern.meanings m ps
    return (r :: rs, m)

end

end TwelveBit.Regex
