import Hetnet.Text.Number

/-!
# Reading doubles

A double is written as an optional sign and a number in decimal form, which may have a
point and an exponent, or as one of the words for infinity and for what is no number, in
any case of letters. There is at least one digit beside the point and at least one in the
exponent, and nothing before or after the whole. The value is the double nearest to
the number written.
-/

namespace Hetnet

namespace Text

/-- The value of a list of ASCII digits. -/
def digitsValue (digits : List Char) : Nat :=
  digits.foldl (fun value c => value * 10 + (c.toNat - '0'.toNat)) 0

/-- The place of a number beyond which every nonzero double is infinite, and the place as
far below one beyond which every double is zero. -/
def farPlace : Int := 400

/-- The double nearest to digits · 10^exponent. Numbers far out of range are not computed. -/
def nearestDouble (digits : Nat) (exponent : Int) : Float :=
  let place := (Nat.toDigits 10 digits).length + exponent
  if digits = 0 || place < -farPlace then 0.0
  else if farPlace < place then 1.0 / 0.0
  else Float.ofScientific digits (exponent < 0) exponent.natAbs

/-- Reads an exponent: an optional sign and digits. -/
def readExponent? : List Char → Option Int
  | '-' :: digits => if allDigits digits then some (-(digitsValue digits : Int)) else none
  | '+' :: digits => if allDigits digits then some (digitsValue digits) else none
  | digits => if allDigits digits then some (digitsValue digits) else none
where
  /-- Whether there are digits and nothing else. -/
  allDigits (cs : List Char) : Bool := !cs.isEmpty && cs.all Char.isDigit

/-- Reads what follows the digits of a number: nothing or an exponent. -/
def readScale? : List Char → Option Int
  | [] => some 0
  | c :: rest => if c = 'e' || c = 'E' then readExponent? rest else none

/-- Reads a number in decimal form without its sign. -/
def readDecimal? (cs : List Char) : Option Float :=
  let whole := cs.takeWhile Char.isDigit
  let afterWhole := cs.dropWhile Char.isDigit
  let (fraction, rest) := match afterWhole with
    | '.' :: more => (more.takeWhile Char.isDigit, more.dropWhile Char.isDigit)
    | _ => ([], afterWhole)
  let digits := whole ++ fraction
  if digits.isEmpty then none
  else (readScale? rest).map fun scale =>
    nearestDouble (digitsValue digits) (scale - fraction.length)

/-- Reads a number or a word without its sign. -/
def readMagnitude? (cs : List Char) : Option Float :=
  let word := String.ofList (cs.map Char.toLower)
  if word = "inf" || word = "infinity" then some (1.0 / 0.0)
  else if word = "nan" then some (0.0 / 0.0)
  else readDecimal? cs

/-- Reads a double. -/
def readDouble? : List Char → Option Float
  | '-' :: cs => (readMagnitude? cs).map (-·)
  | '+' :: cs => readMagnitude? cs
  | cs => readMagnitude? cs

end Text

end Hetnet
