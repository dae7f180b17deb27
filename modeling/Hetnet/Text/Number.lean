import Hetnet.TypedId

/-!
# Reading numbers

An unsigned decimal number is one optional plus sign and at least one ASCII digit;
leading zeros do not matter. A number below a bound is read digit by digit, so of two
faults the one further left is reported: a character that is no digit, or the digit
with which the value reaches the bound.
-/

namespace Hetnet

/-- Why a text is not a number. -/
inductive NumberFault
  | empty
  | invalidDigit
  | tooLarge
deriving DecidableEq, Inhabited

/-- The sentence shown to the caller. -/
def NumberFault.message : NumberFault → String
  | empty => "cannot parse integer from empty string"
  | invalidDigit => "invalid digit found in string"
  | tooLarge => "number too large to fit in target type"

namespace Text

/-- The value of an ASCII digit. -/
def digit? (c : Char) : Option Nat := if c.isDigit then some (c.toNat - '0'.toNat) else none

/-- Continues a number below `bound`, of which `value` has been read, with more digits. -/
def readDigits (bound value : Nat) : List Char → Except NumberFault Nat
  | [] => .ok value
  | c :: rest =>
      match digit? c with
      | none => .error .invalidDigit
      | some d =>
          if value * 10 + d < bound then readDigits bound (value * 10 + d) rest
          else .error .tooLarge

/-- Reads an unsigned decimal number below `bound`. -/
def readNumber (bound : Nat) : List Char → Except NumberFault Nat
  | [] => .error .empty
  | ['+'] => .error .invalidDigit
  | '+' :: digits => readDigits bound 0 digits
  | digits => readDigits bound 0 digits

/-- Reads an id. -/
def readId? {kind : Kind} (token : List Char) : Option (TypedId kind) :=
  (readNumber UInt32.size token).toOption.map .ofIndex

/-- Reads an external id. -/
def readExternal (token : List Char) : Except NumberFault ExternalId :=
  (readNumber UInt64.size token).map fun value => ⟨UInt64.ofNat value⟩

end Text

end Hetnet
