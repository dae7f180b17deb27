import Std.Data.ExtTreeMap

/-!
# Ids

Nodes, labels and edge types are each numbered from zero, and the three
numberings must not be confused, so an id carries in its type the kind of thing
it numbers. Ids are words of 32 bits: they are written as decimal numbers inside
keys, and the bound is what makes a written key readable again.

The ids under which a caller knows its nodes are a fourth kind. They are words of
64 bits, arbitrary and sparse, and no table is ever indexed by them.
-/

namespace Hetnet

/-- What a dense id numbers. -/
inductive Kind
  | node
  | label
  | edgeType
deriving DecidableEq

/-- The name under which an id of this kind is shown to a developer. -/
def Kind.title : Kind → String
  | .node => "NodeId"
  | .label => "LabelId"
  | .edgeType => "EdgeTypeId"

/-- A dense id for the things of one kind. -/
structure TypedId (kind : Kind) where
  raw : UInt32
deriving DecidableEq, Hashable

/-- The number of a node. -/
abbrev NodeId := TypedId .node

/-- The number of a label. -/
abbrev LabelId := TypedId .label

/-- The number of an edge type. -/
abbrev EdgeTypeId := TypedId .edgeType

namespace TypedId

variable {kind : Kind}

instance : Inhabited (TypedId kind) := ⟨⟨0⟩⟩

instance : Ord (TypedId kind) := ⟨compareOn raw⟩

instance : Std.TransOrd (TypedId kind) :=
  inferInstanceAs (Std.TransCmp (compareOn fun id : TypedId kind => id.raw))

instance : Std.LawfulEqOrd (TypedId kind) where
  eq_of_compare {a b} h := by
    have hraw : a.raw = b.raw := Std.LawfulEqOrd.eq_of_compare h
    cases a; cases b; simp_all

/-- The position that the id stands for in a table. -/
def index (id : TypedId kind) : Nat := id.raw.toNat

/-- The id of a position. Positions past the range of 32 bits wrap around. -/
def ofIndex (index : Nat) : TypedId kind := ⟨UInt32.ofNat index⟩

/-- The decimal form, which is the one that keys are made of. -/
def text (id : TypedId kind) : String := toString id.index

/-- The form that names the kind as well. -/
def inspect (id : TypedId kind) : String := s!"{kind.title}({id.text})"

theorem index_lt (id : TypedId kind) : id.index < UInt32.size := id.raw.toNat_lt_size

@[simp] theorem ofIndex_index (id : TypedId kind) : ofIndex id.index = id := by
  cases id; simp [ofIndex, index]

theorem index_ofIndex {i : Nat} (h : i < UInt32.size) : (ofIndex i : TypedId kind).index = i := by
  simp only [ofIndex, index, UInt32.toNat_ofNat']
  exact Nat.mod_eq_of_lt h

theorem index_ofIndex_le (i : Nat) : (ofIndex i : TypedId kind).index ≤ i := by
  simp only [ofIndex, index, UInt32.toNat_ofNat']
  exact Nat.mod_le _ _

theorem index_inj {a b : TypedId kind} : a.index = b.index ↔ a = b := by
  constructor
  · intro h
    rw [← ofIndex_index a, h, ofIndex_index]
  · rintro rfl
    rfl

end TypedId

/-- The id under which a caller knows a node. -/
structure ExternalId where
  raw : UInt64
deriving DecidableEq, Hashable

namespace ExternalId

instance : Inhabited ExternalId := ⟨⟨0⟩⟩

instance : Ord ExternalId := ⟨compareOn raw⟩

/-- The decimal form. -/
def text (id : ExternalId) : String := toString id.raw.toNat

/-- The form that names the kind as well. -/
def inspect (id : ExternalId) : String := s!"OriginalNodeId({id.text})"

/-- The external id of a node that has none of its own: its dense number. -/
def ofNode (node : NodeId) : ExternalId := ⟨node.raw.toUInt64⟩

end ExternalId

end Hetnet
