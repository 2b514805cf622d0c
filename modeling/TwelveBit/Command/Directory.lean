import TwelveBit.Command.Program
/-!
A world made of values: one directory of files that are bytes or pictures, a clock that moves
when it is looked at, an idle keyboard, and everything that was written. The program runs in it
without a disk.
-/
namespace TwelveBit.Command

inductive Content where
  | bytes (bs : List UInt8)
  | picture (p : Picture)

structure Directory where
  files : List (String × Content) := []
  time : Nat := 0
  records : List Log.Record := [] -- the last first
  printed : List String := [] -- the last first

namespace Directory

def absent : String := "No such file or directory (os error 2)"

def notADirectory : String := "Not a directory (os error 20)"

def isADirectory : String := "Is a directory (os error 21)"

def tooLong : String := "File name too long (os error 36)"

def longestName : Nat := 255

def longestPath : Nat := 4095

inductive Spot where
  | here
  | above (levels : Nat)
  | rooted (names : List String)
  | file (name : String)
  | drain
  deriving DecidableEq, Repr

namespace Spot

def isDirectory : Spot → Bool
  | here | above _ | rooted _ => true
  | file _ | drain => false

def parent : Spot → Spot
  | here => above 1
  | above levels => above (levels + 1)
  | rooted names => rooted names.tail
  | spot => spot

def common : List String :=
  ["bin", "dev", "etc", "home", "lib", "proc", "root", "run", "sbin", "sys", "tmp", "usr", "var"]

def ofNames? : List String → Option Spot
  | [] => some (rooted [])
  | [name] => if name ∈ common then some (rooted [name]) else none
  | ["null", "dev"] | ["stdin", "dev"] => some drain
  | _ => none

end Spot

def contains (d : Directory) (name : String) : Bool := (d.files.lookup name).isSome

def spot? (d : Directory) (name : String) : Spot → Option Spot
  | .here => if d.contains name then some (.file name) else none
  | .rooted names => Spot.ofNames? (name :: names)
  | _ => none

def enter (d : Directory) (spot : Spot) (name : String) : Except String Spot :=
  if !spot.isDirectory then .error notADirectory
  else if name = "." then .ok spot
  else if name = ".." then .ok spot.parent
  else if longestName < name.utf8ByteSize then .error tooLong
  else
    match d.spot? name spot with
    | some spot => .ok spot
    | none => .error absent

structure Route where
  start : Spot
  parts : List String
  asDirectory : Bool

def route (path : String) : Except String Route :=
  let parts := path.splitOn "/"
  if longestPath < path.utf8ByteSize then .error tooLong
  else .ok ⟨if parts.head? = some "" then .rooted [] else .here, parts.filter (· ≠ ""),
    parts.getLast? = some ""⟩

def read (d : Directory) (path : String) : Except String (List UInt8) := do
  let r ← route path
  let spot ← r.parts.foldlM d.enter r.start
  if spot.isDirectory then throw isADirectory
  if r.asDirectory then throw notADirectory
  match spot with
  | .file name =>
    match d.files.lookup name with
    | some (.bytes bs) => return bs
    | some (.picture p) => return p.bytes.map UInt8.ofNat
    | none => return []
  | _ => return []

def target (d : Directory) (path : String) : Except String (Option String) := do
  let r ← route path
  match r.parts.getLast? with
  | none => throw isADirectory
  | some name =>
    let spot ← r.parts.dropLast.foldlM d.enter r.start
    if !spot.isDirectory then throw notADirectory
    if name = "." ∨ name = ".." ∨ r.asDirectory then throw isADirectory
    if longestName < name.utf8ByteSize then throw tooLong
    if (d.spot? name spot).any (·.isDirectory) then throw isADirectory
    return if spot = .here then some name else none

def put (d : Directory) (name : String) (c : Content) : Directory :=
  { d with files := (name, c) :: d.files.filter (·.1 ≠ name) }

def write (d : Directory) (path : String) (c : Content) : Except String Directory :=
  return match ← d.target path with
  | some name => d.put name c
  | none => d

def create (d : Directory) (path : String) : Except String Directory := d.write path (.bytes [])

def draw (d : Directory) (path : String) (p : Picture) : Directory :=
  match d.write path (.picture p) with
  | .ok d => d
  | .error _ => d

/-- How far the clock moves when it is looked at, in nanoseconds: little at first, so that short
runs are short, and up to a millisecond later, so that long ones need few looks. -/
def tick (time : Nat) : Nat := min 1000000 (20917 + time / 8)

def world : World (StateM Directory) where
  read path := return (← get).read path
  create path := do
    match (← get).create path with
    | .error why => return .error why
    | .ok d =>
      set d
      return .ok ()
  draw path p := modify (·.draw path p)
  now := modifyGet fun d => (d.time, { d with time := d.time + tick d.time })
  pass ns := modify fun d => { d with time := d.time + ns }
  keys := return []
  log r := modify fun d => { d with records := r :: d.records }
  print line := modify fun d => { d with printed := line :: d.printed }

end Directory
end TwelveBit.Command
