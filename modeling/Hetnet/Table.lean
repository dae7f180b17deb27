import Hetnet.Text.Width

/-!
# Tables

A table is shown with a frame around it and a rule under its header. Every column is as
wide as its widest cell, cells begin at the left, and one blank stands on either side
of each. Lines are never wrapped.
-/

namespace Hetnet

/-- A header and rows of as many cells. -/
structure Table where
  header : List String
  rows : List (List String)
deriving DecidableEq, Inhabited

namespace Table

/-- A horizontal line of the frame: its left end, what it is drawn with, what stands between two
columns, and its right end. -/
structure Line where
  left : String
  fill : Char
  between : String
  right : String

/-- The line above the header. -/
def top : Line := ⟨"┌", '─', "┬", "┐"⟩

/-- The line under the header. -/
def underHeader : Line := ⟨"╞", '═', "╪", "╡"⟩

/-- The line under the last row. -/
def bottom : Line := ⟨"└", '─', "┴", "┘"⟩

/-- The greater width, column by column. -/
def widen : List Nat → List Nat → List Nat
  | a :: as, b :: bs => max a b :: widen as bs
  | [], bs => bs
  | as, [] => as

/-- The widths of the columns. -/
def widths (t : Table) : List Nat :=
  (t.rows.map (·.map Text.width)).foldl widen (t.header.map Text.width)

/-- A line across columns of the given widths. -/
def Line.across (line : Line) (widths : List Nat) : String :=
  line.left ++ line.between.intercalate (widths.map fun w => "".pushn line.fill (w + 2))
    ++ line.right

/-- A cell with blanks up to the width of its column. -/
def cell (width : Nat) (text : String) : String :=
  " " ++ text.pushn ' ' (width - Text.width text) ++ " "

/-- The cells of a row in columns of the given widths. -/
def row (widths : List Nat) (cells : List String) : String :=
  "│" ++ "┆".intercalate (List.zipWith cell widths cells) ++ "│"

/-- The lines of the table from top to bottom. -/
def lines (t : Table) : List String :=
  let widths := t.widths
  [top.across widths, row widths t.header, underHeader.across widths]
    ++ t.rows.map (row widths) ++ [bottom.across widths]

end Table

end Hetnet
