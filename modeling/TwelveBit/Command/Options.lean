import TwelveBit.Hex
/-!
The arguments of the command line. They are read from left to right, and the first that settles
the matter wins: one that makes no sense, or a request for help or for the version.
-/
namespace TwelveBit.Command

structure Options where
  image : String := ""
  entry : Option Nat := none
  ram : Nat := 0x10000
  gram : Nat := 0x40
  vram : Nat := 320 * 240
  rom : Nat := 0x10000
  timerMs : Nat := 10 -- 0 for none
  vblankHz : Nat := 60 -- 0 for none
  console : Bool := true
  breakpoints : List Nat := []
  profile : Bool := false
  screenshot : Option String := none
  width : Nat := 320
  deriving DecidableEq, Repr

inductive Setting where
  | entry | ram | gram | vram | rom | timerMs | vblankHz | breakpoint | screenshot | width
  deriving DecidableEq, Repr

inductive Switch where
  | noConsole | profile | help | version
  deriving DecidableEq, Repr

inductive Key where
  | setting (s : Setting)
  | switch (s : Switch)
  deriving DecidableEq, Repr

def Key.ofName? : String → Option Key
  | "entry" => some (.setting .entry)
  | "ram" => some (.setting .ram)
  | "gram" => some (.setting .gram)
  | "vram" => some (.setting .vram)
  | "rom" => some (.setting .rom)
  | "timer-ms" => some (.setting .timerMs)
  | "vblank-hz" => some (.setting .vblankHz)
  | "break" => some (.setting .breakpoint)
  | "screenshot" => some (.setting .screenshot)
  | "width" => some (.setting .width)
  | "no-console" => some (.switch .noConsole)
  | "profile" => some (.switch .profile)
  | "help" => some (.switch .help)
  | "version" => some (.switch .version)
  | _ => none

inductive Invocation where
  | run (o : Options)
  | help
  | version
  | refused (why : String)
  deriving DecidableEq, Repr

def decimalDigit? (c : Char) : Option Nat :=
  if '0' ≤ c ∧ c ≤ '9' then some (c.toNat - '0'.toNat) else none

def decimal? : List Char → Option Nat
  | [] => none
  | cs => cs.foldlM (fun n c => (decimalDigit? c).map (10 * n + ·)) 0

def dropPlus : List Char → List Char
  | '+' :: cs => cs
  | cs => cs

def natural? (signs : Bool) (limit : Nat) (text : String) : Option Nat :=
  match text.toList with
  | '-' :: cs => if signs then (decimal? cs).filter (· = 0) else none
  | cs => (decimal? (dropPlus cs)).filter (· < limit)

def dropHexMarks : List Char → List Char
  | '0' :: 'x' :: cs => dropHexMarks cs
  | cs => cs

def address? (text : String) : Option Nat :=
  (Hex.value? (dropPlus (dropHexMarks text.toList))).filter (· < 0x100000000)

def Options.assign (o : Options) (s : Setting) (text : String) : Option Options :=
  let size? := natural? true 0x100000000 text
  match s with
  | .entry => (address? text).map fun n => { o with entry := some n }
  | .ram => size?.map fun n => { o with ram := n }
  | .gram => size?.map fun n => { o with gram := n }
  | .vram => size?.map fun n => { o with vram := n }
  | .rom => size?.map fun n => { o with rom := n }
  | .timerMs => (natural? false 0x10000000000000000 text).map fun n => { o with timerMs := n }
  | .vblankHz => size?.map fun n => { o with vblankHz := n }
  | .breakpoint => (address? text).map fun n => { o with breakpoints := o.breakpoints ++ [n] }
  | .screenshot => if text.isEmpty then none else some { o with screenshot := some text }
  | .width => size?.map fun n => { o with width := n }

inductive Argument where
  | dashes
  | long (name : String) (value? : Option String)
  | short (letter : Char)
  | operand (text : String)
  deriving DecidableEq, Repr

def cutAtEquals (cs : List Char) : Argument :=
  let name := String.ofList (cs.takeWhile (· ≠ '='))
  match cs.dropWhile (· ≠ '=') with
  | [] => .long name none
  | _ :: value => .long name (some (String.ofList value))

def Argument.ofString (s : String) : Argument :=
  match s.toList with
  | ['-', '-'] => .dashes
  | '-' :: '-' :: cs => cutAtEquals cs
  | '-' :: c :: _ => .short c
  | _ => .operand s

structure Draft where
  options : Options := {}
  seen : List Key := []

def Draft.mark? (d : Draft) (k : Key) : Option Draft :=
  if k ∈ d.seen ∧ k ≠ .setting .breakpoint then none else some { d with seen := k :: d.seen }

def Draft.operand? (d : Draft) (text : String) : Option Draft :=
  if text.isEmpty ∨ !d.options.image.isEmpty then none
  else some { d with options := { d.options with image := text } }

def Draft.setting? (d : Draft) (s : Setting) (text : String) : Option Draft := do
  let d ← d.mark? (.setting s)
  return { d with options := ← d.options.assign s text }

def Draft.finish (d : Draft) : Invocation :=
  if d.options.image.isEmpty then .refused "no program image is given" else .run d.options

def Draft.operands (d : Draft) : List String → Invocation
  | [] => d.finish
  | arg :: args =>
    match d.operand? arg with
    | some d => d.operands args
    | none => .refused ("unexpected argument '" ++ arg ++ "'")

def Draft.read (d : Draft) : List String → Invocation
  | [] => d.finish
  | arg :: args =>
    match Argument.ofString arg with
    | .dashes => d.operands args
    | .short 'h' => .help
    | .short 'V' => .version
    | .short _ => .refused ("unexpected argument '" ++ arg ++ "'")
    | .operand text =>
      match d.operand? text with
      | some d => d.read args
      | none => .refused ("unexpected argument '" ++ arg ++ "'")
    | .long name value? =>
      match Key.ofName? name, value? with
      | none, _ => .refused ("unexpected argument '" ++ arg ++ "'")
      | some (.switch _), some _ => .refused ("unexpected value for '--" ++ name ++ "'")
      | some (.switch .help), none => .help
      | some (.switch .version), none => .version
      | some (.switch .noConsole), none =>
        match d.mark? (.switch .noConsole) with
        | some d => Draft.read { d with options := { d.options with console := false } } args
        | none => .refused ("'--" ++ name ++ "' is given twice")
      | some (.switch .profile), none =>
        match d.mark? (.switch .profile) with
        | some d => Draft.read { d with options := { d.options with profile := true } } args
        | none => .refused ("'--" ++ name ++ "' is given twice")
      | some (.setting s), some text =>
        match d.setting? s text with
        | some d => d.read args
        | none => .refused ("invalid value '" ++ text ++ "' for '--" ++ name ++ "'")
      | some (.setting s), none =>
        match args with
        | [] => .refused ("'--" ++ name ++ "' needs a value")
        | text :: args =>
          match Argument.ofString text with
          | .operand text =>
            match d.setting? s text with
            | some d => d.read args
            | none => .refused ("invalid value '" ++ text ++ "' for '--" ++ name ++ "'")
          | _ => .refused ("'--" ++ name ++ "' needs a value")

def Invocation.ofArguments (args : List String) : Invocation := Draft.read {} args

end TwelveBit.Command
