import Std.Data.ExtTreeSet
import Hetnet.Error

/-!
# Schemas

The schema of a network says which labels can be joined by which edge types: row `a`
holds `(b, e)` when some node labelled `a` and some node labelled `b` are joined by
an edge of type `e`, whichever way it points. No node appears in a schema, so schemas
of parts of a network can be computed apart and united.

Rows are sets. Two schemas that were recorded in different orders but hold the same
links are equal, and the record of a schema lists every row in increasing order.
-/

namespace Hetnet

/-- One entry of a schema row: a label and the edge type that leads to it. -/
structure SchemaLink where
  label : LabelId
  edgeType : EdgeTypeId
deriving DecidableEq

namespace SchemaLink

instance : Inhabited SchemaLink := ⟨⟨default, default⟩⟩

/-- Links are ordered by their label, then by their edge type. -/
instance : Ord SchemaLink := ⟨compareLex (compareOn label) (compareOn edgeType)⟩

instance : Std.TransOrd SchemaLink :=
  inferInstanceAs (Std.TransCmp (compareLex (compareOn label) (compareOn edgeType)))

instance : Std.LawfulEqOrd SchemaLink where
  eq_of_compare {a b} h := by
    have hlex : compareLex (compareOn label) (compareOn edgeType) a b = .eq := h
    simp only [compareLex, Ordering.then_eq_eq, compareOn, Std.LawfulEqOrd.compare_eq_iff_eq]
      at hlex
    cases a; cases b; simp_all

end SchemaLink

/-- The links of each label. -/
structure Schema where
  rows : Array (Std.ExtTreeSet SchemaLink) := #[]
deriving DecidableEq

/-- A schema as it is stored outside: a format version and the sorted rows. -/
structure SchemaRecord where
  version : Nat
  rows : List (List SchemaLink)
deriving DecidableEq

namespace Schema

instance : Inhabited Schema := ⟨{}⟩

/-- The size of an empty row in bytes. -/
def rowBytes : Nat := 32

/-- The schema of `count` labels that are not linked at all. -/
def empty (count : Nat) : Schema := ⟨Array.replicate count ∅⟩

/-- How many labels there are. -/
def labelCount (s : Schema) : Nat := s.rows.size

/-- The links of the label at a position; past the last label there are none. -/
def row (s : Schema) (i : Nat) : Std.ExtTreeSet SchemaLink := (s.rows[i]?).getD ∅

/-- The links of a label, in increasing order. -/
def links (s : Schema) (label : LabelId) : List SchemaLink := (s.row label.index).toList

/-- Whether `src` is linked to `dst` by an edge type. -/
def contains (s : Schema) (src dst : LabelId) (edgeType : EdgeTypeId) : Bool :=
  (s.row src.index).contains ⟨dst, edgeType⟩

/-- The first label of a list that is outside the vocabulary. -/
def outside? (s : Schema) (labels : List LabelId) : Option LabelId :=
  labels.find? fun label => s.labelCount ≤ label.index

/-- Links two labels by an edge type, in both directions. -/
def record (s : Schema) (a b : LabelId) (edgeType : EdgeTypeId) : Except Error Schema :=
  match s.outside? [a, b] with
  | some label =>
      .error (.internal
        s!"label {label.text} outside a vocabulary of {s.labelCount} labels")
  | none =>
      .ok ⟨(s.rows.modify a.index (·.insert ⟨b, edgeType⟩)).modify b.index
        (·.insert ⟨a, edgeType⟩)⟩

/-- How many links there are; a link between two labels counts once for each of them. -/
def pairCount (s : Schema) : Nat := s.rows.toList.foldr (fun row count => row.size + count) 0

/-- Whether no labels are linked. -/
def isEmpty (s : Schema) : Bool := s.rows.all (·.isEmpty)

/-- The links of both schemas. The result has as many labels as the larger one. -/
def merge (s t : Schema) : Schema :=
  ⟨(Array.range (max s.labelCount t.labelCount)).map fun i => s.row i ∪ t.row i⟩

/-- The version of the stored form. -/
def recordVersion : Nat := 1

/-- The stored form. -/
def toRecord (s : Schema) : SchemaRecord where
  version := recordVersion
  rows := s.rows.toList.map (·.toList)

end Schema

end Hetnet
