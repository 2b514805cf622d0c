import TwelveBit.Regex.Group
import TwelveBit.Regex.Meaning
import TwelveBit.Regex.Matching
/-!
Regular expressions from their text. A pattern is refused if it cannot be read, if its automaton
would be too large, or if it asks for more of Unicode than is known.
-/
namespace TwelveBit.Regex

inductive Refusal where
  | problem (pattern : String) (p : Problem)
  | tooLarge (limit : Nat)
  | notBuilt
  deriving DecidableEq, Repr

def Refusal.message : Refusal → String
  | problem pattern p => p.message pattern
  | tooLarge limit => "Compiled regex exceeds size limit of " ++ toString limit ++ " bytes."
  | notBuilt => "error building NFA"

def sizeLimit : Nat := 10485760

def fixedSize : Nat := 200

def parse (pattern : String) : Except Refusal Regex := do
  let p ← (Pattern.parse pattern).mapError (.problem pattern)
  let (r, _) ← (p.meaning {}).mapError (.problem pattern)
  if sizeLimit < fixedSize + r.size then throw (.tooLarge sizeLimit)
  if r.needsScripts then throw .notBuilt
  return r

end TwelveBit.Regex
