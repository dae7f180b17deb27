import Hetnet.Decimal.Layout

/-!
# Structured output

The structured form of a result is JSON text. Only writing is needed. The members of an
object keep the order in which they are given; the text is either on one line without
blanks, or with one element per line, each level indented by two more blanks.

Strings are quoted with the fewest escapes: the quotation mark, the backslash and the
control characters below the blank, of which five have a short form.
-/

namespace Hetnet

/-- A value of structured output. -/
inductive Json
  | bool (value : Bool)
  | nat (value : Nat)
  | double (value : Float)
  | string (value : String)
  | array (elements : List Json)
  | object (members : List (String × Json))
deriving Inhabited

namespace Json

/-- A hexadecimal digit. -/
def hexDigit (value : Nat) : Char := (Nat.digitChar (value % 16))

/-- A character as it stands between quotation marks. -/
def escape (c : Char) : List Char :=
  if c = '\x22' then ['\\', '\x22']
  else if c = '\\' then ['\\', '\\']
  else if c = '\x08' then ['\\', 'b']
  else if c = '\x0c' then ['\\', 'f']
  else if c = '\n' then ['\\', 'n']
  else if c = '\r' then ['\\', 'r']
  else if c = '\t' then ['\\', 't']
  else if c.toNat < 0x20 then
    ['\\', 'u', '0', '0', hexDigit (c.toNat / 16), hexDigit c.toNat]
  else [c]

/-- A string between quotation marks. -/
def quote (text : String) : String :=
  String.ofList ('\x22' :: text.toList.flatMap escape ++ ['\x22'])

/-- A double; what is no finite number has no form of its own. -/
def ofDouble (value : Float) : String :=
  if value.isFinite then Layout.structured.text value else "null"

/-- Elements between brackets, one per line at the given depth. -/
def layOut (opening closing : String) (depth : Nat) (elements : List String) : String :=
  if elements.isEmpty then opening ++ closing
  else
    let indent := "".pushn ' ' (2 * depth)
    let inner := "\n" ++ indent ++ "  "
    opening ++ inner ++ ("," ++ inner).intercalate elements ++ "\n" ++ indent ++ closing

mutual

/-- The text of a value with one element per line. -/
def pretty (depth : Nat) : Json → String
  | bool value => toString value
  | nat value => toString value
  | double value => ofDouble value
  | string value => quote value
  | array elements => layOut "[" "]" depth (prettyElements (depth + 1) elements)
  | object members => layOut "\x7b" "\x7d" depth (prettyMembers (depth + 1) members)

/-- The texts of the elements of an array. -/
def prettyElements (depth : Nat) : List Json → List String
  | [] => []
  | element :: rest => pretty depth element :: prettyElements depth rest

/-- The texts of the members of an object. -/
def prettyMembers (depth : Nat) : List (String × Json) → List String
  | [] => []
  | (name, value) :: rest =>
      (quote name ++ ": " ++ pretty depth value) :: prettyMembers depth rest

end

mutual

/-- The text of a value on one line. -/
def compact : Json → String
  | bool value => toString value
  | nat value => toString value
  | double value => ofDouble value
  | string value => quote value
  | array elements => "[" ++ ",".intercalate (compactElements elements) ++ "]"
  | object members => "\x7b" ++ ",".intercalate (compactMembers members) ++ "\x7d"

/-- The texts of the elements of an array. -/
def compactElements : List Json → List String
  | [] => []
  | element :: rest => compact element :: compactElements rest

/-- The texts of the members of an object. -/
def compactMembers : List (String × Json) → List String
  | [] => []
  | (name, value) :: rest => (quote name ++ ":" ++ compact value) :: compactMembers rest

end

end Json

end Hetnet
