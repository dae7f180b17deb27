import Hetnet.Text.Number

/-!
# Lines and fields

Text files are read line by line. A line ends at a line feed; within it, fields are
separated by white space, which is the Unicode property `White_Space` and includes
the carriage return. Lines are numbered from one, blank lines and comments included,
but only the significant lines are handed on.
-/

namespace Hetnet

namespace Text

/-- The characters of white space, as first and last of each range. -/
def blankRanges : List (Nat × Nat) :=
  [(0x09, 0x0D), (0x20, 0x20), (0x85, 0x85), (0xA0, 0xA0), (0x1680, 0x1680),
    (0x2000, 0x200A), (0x2028, 0x2029), (0x202F, 0x202F), (0x205F, 0x205F), (0x3000, 0x3000)]

/-- Whether a character is white space. -/
def isBlank (c : Char) : Bool :=
  blankRanges.any fun (first, last) => first ≤ c.toNat && c.toNat ≤ last

/-- The fields of a line. -/
def fields (line : List Char) : List (List Char) :=
  (line.splitOnP isBlank).filter fun field => !field.isEmpty

/-- The lines of a text with their numbers. -/
def numberedLines (text : String) : List (Nat × List Char) :=
  (text.toList.splitOn '\n').zipIdx.map fun (line, i) => (i + 1, line)

/-- Whether a line says something: it has a field, and its first field does not begin
a comment. -/
def isSignificant (line : List Char) : Bool :=
  match fields line with
  | [] => false
  | first :: _ => first.head? ≠ some '#'

/-- The fields of the significant lines, with the numbers of the lines. -/
def significantLines (text : String) : List (Nat × List (List Char)) :=
  ((numberedLines text).filter fun (_, line) => isSignificant line).map
    fun (number, line) => (number, fields line)

/-- The nonempty names of a list whose members are separated by commas. -/
def commaList (field : List Char) : List String :=
  ((field.splitOn ',').filter fun name => !name.isEmpty).map String.ofList

end Text

end Hetnet
