import Hetnet.TypedId

/-!
# Doubles in decimal

A finite double denotes the number m · 2^q, and every real number in an interval around
it rounds to it. The text of a double shows the fewest decimal digits that lie in this
interval, so that reading them gives the double back; among equally short texts it
shows the one nearest to m · 2^q.

Everything here is exact arithmetic on natural numbers. For n = 1, 2, … digits the
two points of the decimal grid next to the value are tried: if any point of a grid
lies in the interval, so does one of these two, and a grid of 17 digits always
has one.
-/

namespace Hetnet

/-- What a double denotes. -/
inductive Binary
  | nan
  | infinite (negative : Bool)
  /-- The number m · 2^q, with a sign. -/
  | finite (negative : Bool) (m : Nat) (q : Int)
deriving DecidableEq, Inhabited

namespace Binary

/-- The number of bits that a significand has below its leading one. -/
def fractionBits : Nat := 52

/-- The exponent of the last bit of a subnormal number. -/
def leastExponent : Int := -1074

/-- Decodes the word of a double. -/
def ofBits (bits : UInt64) : Binary :=
  let word := bits.toNat
  let negative : Bool := word / Nat.pow 2 63 = 1
  let exponent : Nat := word / Nat.pow 2 fractionBits % Nat.pow 2 11
  let fraction : Nat := word % Nat.pow 2 fractionBits
  if exponent = 2047 then
    if fraction = 0 then infinite negative else nan
  else if exponent = 0 then
    finite negative fraction leastExponent
  else
    finite negative (Nat.pow 2 fractionBits + fraction) ((exponent : Int) - 1 + leastExponent)

/-- What a double denotes. -/
def ofFloat (x : Float) : Binary := ofBits x.toBits

end Binary

/-- The number digits · 10^exponent. -/
structure Decimal where
  digits : Nat
  exponent : Int
deriving DecidableEq, Inhabited

namespace Decimal

/-- The digits from left to right. -/
def digitChars (d : Decimal) : List Char := Nat.toDigits 10 d.digits

/-- How many places the decimal point stands to the right of the first digit; zero or
negative if it stands before it. -/
def pointPosition (d : Decimal) : Int := d.digitChars.length + d.exponent

/-- The same number without trailing zeros, for at most `fuel` of them. -/
def strip : Nat → Decimal → Decimal
  | 0, d => d
  | fuel + 1, d =>
      if d.digits ≠ 0 ∧ d.digits % 10 = 0 then strip fuel ⟨d.digits / 10, d.exponent + 1⟩ else d

end Decimal

/-- Which of two equally near numbers is taken. -/
inductive Tie
  /-- The greater one. -/
  | up
  /-- The one with the even last digit. -/
  | toEven
deriving DecidableEq, Inhabited

/-- A positive fraction with the interval of numbers that are rounded to it, over one
denominator. -/
structure Rounding where
  low : Nat
  value : Nat
  high : Nat
  denominator : Nat
  /-- Whether the ends of the interval belong to it. -/
  closed : Bool

namespace Rounding

/-- The interval of the double m · 2^q. Its lower half is half as long where
the spacing of the doubles changes. -/
def ofBinary (m : Nat) (q : Int) : Rounding :=
  let up := Nat.pow 2 (q - 2).toNat
  let below := if m = Nat.pow 2 Binary.fractionBits ∧ Binary.leastExponent < q then 1 else 2
  { low := (4 * m - below) * up
    value := 4 * m * up
    high := (4 * m + 2) * up
    denominator := Nat.pow 2 (2 - q).toNat
    closed := m % 2 = 0 }

/-- The number of decimal places before the point of the value, or minus the number of
zeros after it. -/
def magnitude (r : Rounding) : Int :=
  if r.denominator ≤ r.value then
    (Nat.toDigits 10 (r.value / r.denominator)).length
  else
    let inverse := (r.denominator + r.value - 1) / r.value
    1 - (Nat.toDigits 10 (inverse - 1)).length

/-- The fraction `scaled / unit` is the value in units of 10^exponent. -/
def scaled (r : Rounding) (exponent : Int) : Nat := r.value * Nat.pow 10 (-exponent).toNat

/-- See `scaled`. -/
def unit (r : Rounding) (exponent : Int) : Nat := r.denominator * Nat.pow 10 exponent.toNat

/-- Whether `digits` units of 10^exponent lie in the interval. -/
def holds (r : Rounding) (exponent : Int) (digits : Nat) : Bool :=
  let low := r.low * Nat.pow 10 (-exponent).toNat
  let high := r.high * Nat.pow 10 (-exponent).toNat
  let point := digits * r.unit exponent
  if r.closed then low ≤ point ∧ point ≤ high else low < point ∧ point < high

/-- Whether the lower one of the two grid points around the value is taken, where both lie in
the interval and the value is `remainder` above the lower one, on a grid of `unit`. -/
def takesLower (tie : Tie) (digits remainder unit : Nat) : Bool :=
  2 * remainder < unit || (2 * remainder = unit && tie = .toEven && digits % 2 = 0)

/-- The point of the grid of 10^exponent that lies in the interval and is nearest to the
value. -/
def nearest? (r : Rounding) (tie : Tie) (exponent : Int) : Option Decimal :=
  let below := r.scaled exponent / r.unit exponent
  let remainder := r.scaled exponent % r.unit exponent
  let inBelow := r.holds exponent below
  let inAbove := r.holds exponent (below + 1)
  if inBelow && (!inAbove || takesLower tie below remainder (r.unit exponent)) then
    some ⟨below, exponent⟩
  else if inAbove then some ⟨below + 1, exponent⟩
  else none

/-- The most digits that are ever needed. -/
def mostDigits : Nat := 17

/-- The shortest decimal in the interval. -/
def shortest (r : Rounding) (tie : Tie) : Decimal :=
  let found := (List.range mostDigits).findSome? fun n : Nat =>
    r.nearest? tie (r.magnitude - ((n : Int) + 1))
  (found.getD ⟨0, 0⟩).strip mostDigits

end Rounding

/-- The shortest decimal that is read as the double m · 2^q. -/
def Decimal.shortest (tie : Tie) (m : Nat) (q : Int) : Decimal :=
  if m = 0 then ⟨0, 0⟩ else (Rounding.ofBinary m q).shortest tie

end Hetnet
