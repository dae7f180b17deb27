/-!
# Classes of characters

A class of characters is given by the ranges of its code points.
-/

namespace Hetnet

/-- A class of characters, as the first and the last code point of each of its ranges. -/
structure CharClass where
  ranges : List (Nat × Nat)
deriving DecidableEq, Inhabited

/-- Whether a character is in the class. -/
def CharClass.has (k : CharClass) (c : Char) : Bool :=
  k.ranges.any fun (first, last) => first ≤ c.toNat && c.toNat ≤ last

end Hetnet
