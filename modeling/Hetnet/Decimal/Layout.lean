import Hetnet.Decimal.Shortest

/-!
# Layouts of decimal numbers

The digits of a number are one thing, where they are put is another. A layout says which
of two equally short and equally near texts is taken, for which magnitudes the number is
written out in full and whether a whole number keeps a fraction. Outside the range of
full writing, the first digit is followed by the point, the other digits and the
exponent.

Three layouts are in use: messages write every number in full, while file names and
structured output keep numbers short, each within bounds of its own. A count that is
shown to a reader is rounded to a fixed number of places instead.
-/

namespace Hetnet

/-- How the digits of a number are put on the line. -/
structure Layout where
  tie : Tie
  /-- The positions of the decimal point for which the number is written in full; `none`
  if that is always done. -/
  positional : Option (Int × Int)
  /-- Whether a whole number that is written in full ends in a zero fraction. -/
  keepsFraction : Bool
  /-- Whether an exponent that is not negative has a sign. -/
  signsExponent : Bool

namespace Layout

/-- The layout of messages: always in full, whole numbers without a fraction. -/
def plain : Layout := ⟨.up, none, false, false⟩

/-- The layout of names: numbers from 10⁻⁴ to 10¹⁶ in full, whole ones with a fraction. -/
def compact : Layout := ⟨.up, some (-3, 16), true, false⟩

/-- The layout of structured output: numbers from 10⁻⁵ to 10¹⁶ in full, whole ones with a
fraction; greater ones have an exponent with a sign. -/
def structured : Layout := ⟨.toEven, some (-4, 16), true, true⟩

/-- A list of zeros. -/
def zeros (count : Nat) : List Char := List.replicate count '0'

/-- The number written in full. -/
def inFull (layout : Layout) (d : Decimal) : List Char :=
  let digits := d.digitChars
  let point := d.pointPosition
  if point ≤ 0 then
    '0' :: '.' :: (zeros (-point).toNat ++ digits)
  else if point < digits.length then
    digits.take point.toNat ++ '.' :: digits.drop point.toNat
  else
    digits ++ zeros (point.toNat - digits.length)
      ++ (if layout.keepsFraction then ['.', '0'] else [])

/-- The exponent of a number and what stands before it. -/
def exponentPart (layout : Layout) (exponent : Int) : List Char :=
  let sign := if layout.signsExponent && 0 ≤ exponent then ['+'] else []
  'e' :: sign ++ (toString exponent).toList

/-- The number written with an exponent. -/
def withExponent (layout : Layout) (d : Decimal) : List Char :=
  let mantissa := match d.digitChars with
    | [] => []
    | [digit] => [digit]
    | digit :: rest => digit :: '.' :: rest
  mantissa ++ layout.exponentPart (d.pointPosition - 1)

/-- Whether a number is written in full. -/
def writesInFull (layout : Layout) (d : Decimal) : Bool :=
  d.digits = 0 || match layout.positional with
    | none => true
    | some (least, greatest) => least ≤ d.pointPosition && d.pointPosition ≤ greatest

/-- A number without its sign. -/
def magnitude (layout : Layout) (d : Decimal) : List Char :=
  if d.digits = 0 then
    if layout.keepsFraction then ['0', '.', '0'] else ['0']
  else if layout.writesInFull d then layout.inFull d
  else layout.withExponent d

/-- The text of a double. -/
def text (layout : Layout) (x : Float) : String :=
  match Binary.ofFloat x with
  | .nan => "NaN"
  | .infinite negative => if negative then "-inf" else "inf"
  | .finite negative m q =>
      let digits := layout.magnitude (.shortest layout.tie m q)
      String.ofList (if negative then '-' :: digits else digits)

end Layout

/-- The quotient rounded to the nearest whole number, a half to the even one. -/
def roundedQuotient (numerator denominator : Nat) : Nat :=
  let quotient := numerator / denominator
  let twice := 2 * (numerator % denominator)
  if denominator < twice || (twice = denominator && quotient % 2 = 1) then quotient + 1
  else quotient

/-- The text of a double with exactly `places` digits after the point. -/
def fixedText (places : Nat) (x : Float) : String :=
  match Binary.ofFloat x with
  | .nan => "NaN"
  | .infinite negative => if negative then "-inf" else "inf"
  | .finite negative m q =>
      let units := roundedQuotient (m * Nat.pow 2 q.toNat * Nat.pow 10 places)
        (Nat.pow 2 (-q).toNat)
      let digits := Nat.toDigits 10 units
      let padded := Layout.zeros (places + 1 - digits.length) ++ digits
      let whole := padded.take (padded.length - places)
      let fraction := padded.drop (padded.length - places)
      let unsigned := if places = 0 then whole else whole ++ '.' :: fraction
      String.ofList (if negative then '-' :: unsigned else unsigned)

end Hetnet
