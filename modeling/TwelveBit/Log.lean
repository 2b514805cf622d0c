import TwelveBit.Regex
/-!
Log records and the text that says which of them are wanted. The text is a list of directives
parted by commas, each a level, a target, or `target=level`; a directive holds for all targets
that start with its own, and the longest one decides. Behind a `/` may stand a regular expression
that every message has to match.
-/
namespace TwelveBit.Log

inductive Level where
  | error | warn | info | debug | trace
  deriving DecidableEq, Repr

namespace Level

def rank : Level → Nat
  | error => 1
  | warn => 2
  | info => 3
  | debug => 4
  | trace => 5

def name : Level → String
  | error => "ERROR"
  | warn => "WARN"
  | info => "INFO"
  | debug => "DEBUG"
  | trace => "TRACE"

end Level

structure Record where
  level : Level
  target : String
  message : String
  deriving DecidableEq, Repr

structure Directive where
  target : Option String
  ceiling : Nat
  deriving DecidableEq, Repr

structure Filter where
  directives : List Directive
  needle : Option Regex := none
  deriving DecidableEq, Repr

inductive Complaint where
  | invalid (part : String)
  | tooManySlashes (text : String)
  | needle (why : Regex.Refusal)
  deriving DecidableEq, Repr

def Complaint.message : Complaint → String
  | invalid part => "warning: invalid logging spec '" ++ part ++ "', ignoring it"
  | tooManySlashes text =>
    "warning: invalid logging spec '" ++ text ++ "' (too many '/'s), ignoring it"
  | needle why => "warning: invalid regex filter - " ++ why.message ++ ", ignoring it"

def rank? (s : String) : Option Nat :=
  match s.toList.map Char.toUpper with
  | ['O', 'F', 'F'] => some 0
  | cs => ([.error, .warn, .info, .debug, .trace] : List Level).findSome? fun l =>
      if l.name.toList = cs then some l.rank else none

def directive (part : String) : Except Complaint Directive :=
  match part.splitOn "=" with
  | [word] =>
    match rank? word with
    | some r => .ok ⟨none, r⟩
    | none => .ok ⟨some word, Level.trace.rank⟩
  | [target, level] =>
    let level := Text.trim level
    if level.isEmpty then .ok ⟨some target, Level.trace.rank⟩
    else
      match rank? level with
      | some r => .ok ⟨some target, r⟩
      | none => .error (.invalid level)
  | _ => .error (.invalid part)

def insert (d : Directive) : List Directive → List Directive
  | [] => [d]
  | e :: es => if e.target = d.target then d :: es else e :: insert d es

def collect : List String → List Directive × List Complaint
  | parts => parts.foldl (fun (ds, cs) part =>
      match directive part with
      | .ok d => (insert d ds, cs)
      | .error c => (ds, cs ++ [c])) ([], [])

def Directive.length (d : Directive) : Nat := (d.target.getD "").utf8ByteSize

/-- Without directives only errors are wanted. -/
def Filter.ofDirectives (ds : List Directive) (needle : Option Regex) : Filter :=
  match ds with
  | [] => ⟨[⟨none, Level.error.rank⟩], needle⟩
  | ds => ⟨ds.mergeSort fun a b => a.length ≤ b.length, needle⟩

def readNeedle : Option String → Option Regex × List Complaint
  | none => (none, [])
  | some pattern =>
    match Regex.parse pattern with
    | .ok r => (some r, [])
    | .error why => (none, [.needle why])

def Filter.parse (text : String) : Filter × List Complaint :=
  match text.splitOn "/" with
  | parts :: rest =>
    if 1 < rest.length then (.ofDirectives [] none, [.tooManySlashes text])
    else
      let (ds, cs) := collect (((parts.splitOn ",").map Text.trim).filter (!·.isEmpty))
      let (r?, more) := readNeedle rest.head?
      (.ofDirectives ds r?, cs ++ more)
  | [] => (.ofDirectives [] none, [])

def Filter.enabled (f : Filter) (level : Level) (target : String) : Bool :=
  -- the longest directive stands last
  match f.directives.reverse.find? fun d => (d.target.getD "").toList.isPrefixOf target.toList with
  | some d => level.rank ≤ d.ceiling
  | none => false

def Filter.wants (f : Filter) (r : Record) : Bool :=
  f.enabled r.level r.target && f.needle.all (·.isIn r.message)

end TwelveBit.Log
