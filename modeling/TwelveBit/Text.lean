/-!
White space and lines.
-/
namespace TwelveBit.Text

def isBlank (c : Char) : Bool :=
  let n := c.toNat
  (9 ≤ n && n ≤ 13) || n = 0x20 || n = 0x85 || n = 0xA0 || n = 0x1680 ||
    (0x2000 ≤ n && n ≤ 0x200A) || n = 0x2028 || n = 0x2029 || n = 0x202F || n = 0x205F || n = 0x3000

def trim (s : String) : String :=
  String.ofList ((s.toList.dropWhile isBlank).reverse.dropWhile isBlank).reverse

def pieces (p : Char → Bool) : List Char → List Char × List (List Char)
  | [] => ([], [])
  | c :: cs =>
    let (first, others) := pieces p cs
    if p c then ([], first :: others) else (c :: first, others)

def dropReturn (cs : List Char) : List Char :=
  if cs.getLast? = some '\r' then cs.dropLast else cs

/-- Drops the ends of the lines; what follows the last line feed is a line if it is not empty. -/
def endLines (first : List Char) : List (List Char) → List (List Char)
  | [] => if first.isEmpty then [] else [first]
  | next :: others => dropReturn first :: endLines next others

def lines (s : String) : List String :=
  let (first, others) := pieces (· = '\n') s.toList
  (endLines first others).map String.ofList

end TwelveBit.Text
