/-!
Sets of code points as tables: rows of a first and a last code point.
-/
namespace TwelveBit.Unicode

abbrev Table := List (Nat × Nat)

def Table.contains (t : Table) (c : Char) : Bool :=
  t.any fun (low, high) => low ≤ c.toNat && c.toNat ≤ high

end TwelveBit.Unicode
