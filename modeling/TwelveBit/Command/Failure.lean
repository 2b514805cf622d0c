/-!
The report of a run that went wrong: what could not be done, and the chain of causes.
-/
namespace TwelveBit.Command

structure Failure where
  message : String
  causes : List String
  deriving DecidableEq, Repr

namespace Failure

def causeLines : List String → List String
  | [] => []
  | [cause] => ["    " ++ cause]
  | causes => causes.zipIdx.map fun (cause, i) =>
      let number := toString i
      String.ofList (List.replicate (5 - number.length) ' ') ++ number ++ ": " ++ cause

def lines (f : Failure) : List String :=
  ("Error: " ++ f.message) ::
    if f.causes.isEmpty then [] else "" :: "Caused by:" :: causeLines f.causes

end Failure
end TwelveBit.Command
