import TwelveBit.Command.Program
import TwelveBit.Png
/-!
The command line on a real disk, clock and terminal.
-/
namespace TwelveBit.Terminal
open Command

def errorText (code : Nat) (details : String) : String :=
  let text := match code with
    | 2 => "No such file or directory"
    | 13 => "Permission denied"
    | 20 => "Not a directory"
    | 21 => "Is a directory"
    | 36 => "File name too long"
    | _ => details
  text ++ " (os error " ++ toString code ++ ")"

def failureText (e : IO.Error) : String :=
  let positive (code : UInt32) := if code < 0x80000000 then code.toNat else (0 - code).toNat
  match e with
  | .noFileOrDirectory _ code details | .permissionDenied (some _) code details
  | .inappropriateType (some _) code details | .noSuchThing (some _) code details
  | .invalidArgument (some _) code details => errorText (positive code) details
  | .inappropriateType none code details | .permissionDenied none code details
  | .otherError code details => errorText (positive code) details
  | e => toString e

def access {α : Type} (act : IO α) : IO (Except String α) := do
  try return .ok (← act)
  catch e => return .error (failureText e)

partial def listen (input : IO.FS.Stream) (typed : IO.Ref (Array UInt8)) : IO Unit := do
  let bytes ← input.read 32
  if bytes.isEmpty then return
  typed.modify (· ++ bytes.toList.toArray)
  listen input typed

def world (typed : IO.Ref (Array UInt8)) : World IO where
  read path := access do return (← IO.FS.readBinFile path).toList
  create path := access (IO.FS.writeBinFile path .empty)
  draw path p := IO.FS.writeBinFile path ⟨(Png.encode p).toArray⟩
  now := IO.monoNanosNow
  pass ns := IO.sleep (UInt32.ofNat (ns / 1000000 + 1))
  keys := return (← typed.modifyGet fun bytes => (bytes, #[])).toList
  log r := IO.eprintln ("[" ++ String.ofList (r.level.name.toList.rightpad 5 ' ') ++ " " ++
    r.target ++ "] " ++ r.message)
  print := IO.println

def usage : String :=
  "Usage: twelve [OPTIONS] <IMAGE>\n\n" ++
  "Options:\n" ++
  "      --entry <HEX>         address to start at, in place of 0x20 words into ROM\n" ++
  "      --ram <WORDS>         size of RAM [default: 65536]\n" ++
  "      --gram <WORDS>        size of the graphics registers [default: 64]\n" ++
  "      --vram <WORDS>        size of video memory [default: 76800]\n" ++
  "      --rom <WORDS>         size of ROM [default: 65536]\n" ++
  "      --timer-ms <MS>       period of the timer, 0 for none [default: 10]\n" ++
  "      --vblank-hz <HZ>      display refreshes a second, 0 for none [default: 60]\n" ++
  "      --no-console          keep standard input from the machine\n" ++
  "      --break <HEX>         show the registers whenever this address is reached\n" ++
  "      --profile             print the opcodes that were executed most often\n" ++
  "      --screenshot <PATH>   save video memory as a PNG file at the end\n" ++
  "      --width <PIXELS>      width of the screenshot [default: 320]\n" ++
  "  -h, --help                print this text\n" ++
  "  -V, --version             print the version"

def run (args : List String) : IO UInt32 := do
  let (filter, complaints) := Log.Filter.parse ((← IO.getEnv "TWELVE_LOG").getD "info")
  complaints.forM fun c => IO.eprintln c.message
  match Invocation.ofArguments args with
  | .help =>
    IO.println usage
    return 0
  | .version =>
    IO.println "twelve-cli 0.1.0"
    return 0
  | .refused why =>
    IO.eprintln ("error: " ++ why ++ "\n\nFor more information, try '--help'.")
    return 2
  | .run options =>
    let typed ← IO.mkRef #[]
    if options.console then
      let _ ← IO.asTask (listen (← IO.getStdin) typed) .dedicated
    match ← options.perform (world typed) filter 0x4000000000000000 with
    | .ok () => return 0
    | .error failure =>
      failure.lines.forM IO.eprintln
      return 1

end TwelveBit.Terminal

def main (args : List String) : IO UInt32 := TwelveBit.Terminal.run args
