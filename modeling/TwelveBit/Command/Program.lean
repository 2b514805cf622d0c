import TwelveBit.Breakpoints
import TwelveBit.Profile
import TwelveBit.Command.Options
import TwelveBit.Command.Failure
import TwelveBit.Command.Screenshot
import TwelveBit.Command.Journal
/-!
The program behind the command line: load an image, run it between timers, display and keyboard,
and report. What it needs of the world around it comes in as a record of actions, so that it runs
as well on a disk and a clock as on values that stand for them.
-/
namespace TwelveBit.Command

/-- What the program needs of the world; times are in nanoseconds. -/
structure World (m : Type → Type) where
  read : String → m (Except String (List UInt8))
  create : String → m (Except String Unit)
  draw : String → Picture → m Unit
  now : m Nat
  pass : Nat → m Unit
  keys : m (List UInt8)
  log : Log.Record → m Unit
  print : String → m Unit

structure Clock where
  irq : Interrupt
  period : Nat
  next : Nat

def Clock.strike (now : Nat) : List Clock → List Line.Action × List Clock
  | [] => ([], [])
  | c :: cs =>
    let (acts, cs) := strike now cs
    if c.next ≤ now then (.request c.irq :: acts, { c with next := c.next + c.period } :: cs)
    else (acts, c :: cs)

def Options.clocks (o : Options) (now : Nat) : List Clock :=
  let clock (irq : Interrupt) (period : Nat) : Clock := ⟨irq, period, now + period⟩
  (if o.timerMs = 0 then [] else [clock .timer (o.timerMs * 1000000)]) ++
    (if o.vblankHz = 0 then [] else [clock .vblank (1000000000 / o.vblankHz)])

abbrev Watch := (Breakpoints × Profile) × Journal

namespace Watch

def host : Host Watch := (Breakpoints.host.pair Profile.host).pair Journal.host

def notePause (m : Machine) : Watch → Watch
  | (watch, journal) => (watch, journal.notePause m)

def advance (waiting : Bool) (steps : Nat) (m : Machine) (watch : Watch) :
    Option Stop × Machine × Watch :=
  match if waiting then m.wake host watch else (none, m, watch) with
  | (none, m, watch) => m.runOn host notePause steps watch
  | ended => ended

end Watch

section
variable {m : Type → Type} [Monad m]

def slice : Nat := 1000

def longestSleep : Nat := 50000000

def drive (w : World m) (console : Bool) :
    Nat → List Clock → Bool → Machine → Watch → m (Option Stop × Machine × Watch)
  | 0, _, _, machine, watch => return (none, machine, watch)
  | fuel + 1, clocks, waiting, machine, (watch, journal) => do
    let now ← w.now
    let (struck, clocks) := Clock.strike now clocks
    let keys ← if console then w.keys else pure []
    let typed := keys.map fun b => Line.Action.request (.key b.toNat true)
    let journal := { journal with queue := journal.queue ++ struck ++ typed }
    let (stop, machine, watch, journal) := Watch.advance waiting slice machine (watch, journal)
    let (records, journal) := journal.flush
    records.forM w.log
    match stop with
    | none => drive w console fuel clocks false machine (watch, journal)
    | some .blocked =>
      let due := clocks.map fun c => c.next - now
      w.pass (due.foldl min longestSleep)
      drive w console fuel clocks true machine (watch, journal)
    | some stop => return (some stop, machine, watch, journal)

def loadAll (w : World m) (filter : Log.Filter) (machine : Machine) :
    List Block → m (Except LoadError Nat × Machine)
  | [] => return (.ok 0, machine)
  | b :: bs => do
    let record := Journal.ofMachine .debug ("loading " ++ toString b.words.length ++
      " words at ROM offset " ++ Hex.literal 1 (b.offset % 0x100000000).toNat)
    if filter.wants record then w.log record
    match machine.loadBlock b with
    | (.error e, machine) => return (.error e, machine)
    | (.ok (), machine) =>
      let (n, machine) ← loadAll w filter machine bs
      return (n.map (b.words.length + ·), machine)

def loadImage (w : World m) (filter : Log.Filter) (bytes : List UInt8) (machine : Machine) :
    m (Except LoadError Nat × Machine) :=
  match Image.parse bytes with
  | .ok blocks => loadAll w filter machine blocks
  | .error e => return (.error e, machine)

def timeText (ns : Nat) : String :=
  let (unit, size, places) :=
    if 1000000000 ≤ ns then ("s", 1000000000, 9)
    else if 1000000 ≤ ns then ("ms", 1000000, 6)
    else if 1000 ≤ ns then ("µs", 1000, 3)
    else ("ns", 1, 0)
  let digits := (Nat.toDigits 10 (ns % size)).leftpad places '0'
  let kept := (digits.reverse.dropWhile (· = '0')).reverse
  let fraction := if size = 1 ∨ kept.isEmpty then "" else "." ++ String.ofList kept
  toString (ns / size) ++ fraction ++ unit

def summary (machine : Machine) (elapsed : Nat) : String :=
  toString machine.instructions ++ " instructions and " ++ toString machine.interrupts ++
    " interrupts (" ++ toString machine.line.missed ++ " missed) in " ++ timeText elapsed

def profileLine (entry : Opcode × Nat) : String :=
  String.ofList (entry.1.mnemonic.toList.leftpad 14 ' ') ++ " " ++ toString entry.2

def save (w : World m) (path : String) (p : Picture) : m (Except String Unit) := do
  let format := Screenshot.Format.ofPath path
  match format.refusal? with
  | some why => return .error why
  | none =>
    match ← w.create path with
    | .error why => return .error why
    | .ok () =>
      match format.objection? p with
      | some why => return .error why
      | none =>
        w.draw path p
        return .ok ()

def saveScreenshot (w : World m) (o : Options) (machine : Machine) : m (Except Failure Unit) := do
  match o.screenshot with
  | none => return .ok ()
  | some path =>
    match ← save w path (Picture.capture machine.memory o.width) with
    | .ok () => return .ok ()
    | .error why => return .error ⟨"failed to save " ++ Quoted.encode path, [why]⟩

def verdict : Option Stop → Except Failure String
  | some (.exit .halted) => .ok "exited: Halted"
  | some (.exit .stopped) => .ok "exited: Stopped"
  | some (.exit (.paused pc)) => .ok ("exited: Break(" ++ toString pc ++ ")")
  | some (.trap t) => .error ⟨"execution failed", [t.message, t.fault.message]⟩
  | some .blocked | none => .error ⟨"execution failed", ["the run was given up"]⟩

def Options.perform (o : Options) (w : World m) (filter : Log.Filter) (fuel : Nat) :
    m (Except Failure Unit) := do
  let tell (message : String) : m Unit :=
    let record := Journal.ofProgram message
    if filter.wants record then w.log record else pure ()
  match ← w.read o.image with
  | .error why => return .error ⟨"failed to read " ++ Quoted.encode o.image, [why]⟩
  | .ok bytes =>
    match Layout.make o.ram o.gram o.vram o.rom with
    | .error e => return .error ⟨"invalid memory layout", [e.message]⟩
    | .ok layout =>
      match ← loadImage w filter bytes (Machine.new layout) with
      | (.error e, _) => return .error ⟨"failed to load " ++ Quoted.encode o.image, [e.message]⟩
      | (.ok n, machine) =>
        let entry := o.entry.getD machine.defaultEntry
        tell ("loaded " ++ toString n ++ " words, starting at " ++ Hex.literal 6 entry)
        let start ← w.now
        let watch : Watch := ((.ofList o.breakpoints, {}), { filter := filter })
        let (stop, machine, (_, profile), _) ←
          drive w o.console fuel (o.clocks start) false (machine.reset entry) watch
        let machine := machine.perform [.close]
        tell (summary machine ((← w.now) - start))
        if o.profile then (profile.top 16).forM fun entry => w.print (profileLine entry)
        match ← saveScreenshot w o machine with
        | .error f => return .error f
        | .ok () =>
          match verdict stop with
          | .error f => return .error f
          | .ok message =>
            tell message
            return .ok ()

end
end TwelveBit.Command
