import TwelveBit.Hex
import TwelveBit.Unicode.Hidden
/-!
Quoted text: between double quotes, with a backslash before double quotes and backslashes, and
escapes for what shows nothing of its own.
-/
namespace TwelveBit.Quoted

def escape (c : Char) : List Char :=
  match c with
  | '\x22' => ['\\', '\x22']
  | '\\' => ['\\', '\\']
  | '\n' => ['\\', 'n']
  | '\r' => ['\\', 'r']
  | '\t' => ['\\', 't']
  | '\x00' => ['\\', '0']
  | c =>
    if Unicode.isHidden c then ['\\', 'u', '\x7b'] ++ Hex.digits c.toNat ++ ['\x7d'] else [c]

def encode (s : String) : String :=
  String.ofList ('\x22' :: s.toList.flatMap escape ++ ['\x22'])

end TwelveBit.Quoted
