import Hetnet.Text.Following

/-!
# The width of a text

The width of a text is the number of columns that it takes on a screen of fixed columns.
Letters, digits and signs of most scripts take one each; the rules for all others are in
`Hetnet.Text.Following`.
-/

namespace Hetnet

namespace Text

/-- The columns of a text, measured from its end, and what a character before it has to know. -/
def measure (cs : List Char) : Int × Following :=
  cs.foldr
    (fun c (columns, next) =>
      let (added, next) := next.before c
      (columns + added, next))
    (0, .nothing)

/-- The columns that a text takes. -/
def width (text : String) : Nat := (measure text.toList).1.toNat

end Text

end Hetnet
