import Std.Data.ExtTreeSet
import Hetnet.TypedId

/-!
# Compressed rows

A network is frozen once it is built, so the rows of its tables (the neighbors of each
node, the labels of each node) are laid end to end in one array, with the offsets at
which the rows begin. The last offset is the end of the last row, which is why there
is one offset more than there are rows, and why the empty table has the one offset 0.

`ofRows` keeps the rows as they are given. `ofPairs` collects the values of each
row from a list of pairs in any order: a row is then strictly increasing, and pairs
of unknown rows are ignored.
-/

namespace Hetnet

/-- Rows of values, stored end to end. -/
structure Rows (α : Type) where
  /-- Row `r` holds the values from position `offsets[r]` to position `offsets[r + 1]`. -/
  offsets : Array Nat := #[0]
  values : Array α := #[]
deriving DecidableEq

namespace Rows

variable {α : Type}

instance : Inhabited (Rows α) := ⟨{}⟩

/-- The values of a row; an unknown row has none. -/
def row (t : Rows α) (r : Nat) : List α :=
  match t.offsets[r]?, t.offsets[r + 1]? with
  | some start, some stop => (t.values.extract start stop).toList
  | _, _ => []

/-- The length of a row. -/
def rowLength (t : Rows α) (r : Nat) : Nat := (t.row r).length

/-- How many rows there are. -/
def rowCount (t : Rows α) : Nat := t.offsets.size - 1

/-- How many values there are in all rows. -/
def valueCount (t : Rows α) : Nat := t.values.size

/-- Appends a row. -/
def push (t : Rows α) (row : List α) : Rows α :=
  let values := t.values ++ row
  { offsets := t.offsets.push values.size, values }

/-- The table of the given rows, each as it is. -/
def ofRows (rows : List (List α)) : Rows α := rows.foldl push {}

/-- The values that pairs give to the rows below `count`, the latest first. -/
def buckets (count : Nat) (pairs : List (Nat × α)) : Array (List α) :=
  pairs.foldl (fun rows (r, value) => rows.modify r (value :: ·)) (Array.replicate count [])

/-- The distinct members of a list in increasing order. -/
def ascending [Ord α] [Std.TransOrd α] (values : List α) : List α :=
  (Std.ExtTreeSet.ofList values).toList

/-- The table whose row `r` holds, in increasing order, the values paired with `r`. -/
def ofPairs [Ord α] [Std.TransOrd α] (count : Nat) (pairs : List (Nat × α)) : Rows α :=
  ofRows ((buckets count pairs).toList.map ascending)

end Rows

/-- A pair of nodes joined by an edge, in the direction of the edge. -/
structure Arc where
  src : NodeId
  dst : NodeId
deriving DecidableEq

namespace Arc

instance : Inhabited Arc := ⟨⟨default, default⟩⟩

/-- Arcs are ordered by their source, then by their destination. -/
instance : Ord Arc := ⟨compareLex (compareOn src) (compareOn dst)⟩

instance : Std.TransOrd Arc :=
  inferInstanceAs (Std.TransCmp (compareLex (compareOn src) (compareOn dst)))

instance : Std.LawfulEqOrd Arc where
  eq_of_compare {a b} h := by
    have hlex : compareLex (compareOn src) (compareOn dst) a b = .eq := h
    simp only [compareLex, Ordering.then_eq_eq, compareOn, Std.LawfulEqOrd.compare_eq_iff_eq]
      at hlex
    cases a; cases b; simp_all

/-- The arc in the opposite direction. -/
def reverse (arc : Arc) : Arc := ⟨arc.dst, arc.src⟩

end Arc

/-- For each node, the nodes that its row leads to. -/
abbrev Adjacency := Rows NodeId

namespace Adjacency

/-- The adjacency of the first `count` nodes along the given arcs. -/
def ofArcs (count : Nat) (arcs : List Arc) : Adjacency :=
  Rows.ofPairs count (arcs.map fun arc => (arc.src.index, arc.dst))

/-- The nodes that a node leads to, in increasing order. -/
def neighbors (t : Adjacency) (node : NodeId) : List NodeId := t.row node.index

/-- How many nodes a node leads to. -/
def degree (t : Adjacency) (node : NodeId) : Nat := (t.neighbors node).length

/-- How many arcs there are. -/
def arcCount (t : Adjacency) : Nat := t.valueCount

end Adjacency

end Hetnet
