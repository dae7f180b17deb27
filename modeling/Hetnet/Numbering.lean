import Std.Data.ExtHashMap
import Hetnet.Error

/-!
# Numberings

A numbering gives the keys it has seen the numbers 0, 1, 2, … in the order in which
they first came. It is kept twice, as a table from numbers to keys and as an index
from keys to numbers, because both directions are looked up all the time; the field
`agree` says that the two can never contradict each other.

Names of labels, names of edge types and the external ids of nodes are numbered this
way. A `Vocabulary` takes any name and hands out the number it has or the next one;
a `NodeTable` refuses an external id that it already holds.
-/

namespace Hetnet

/-- Keys numbered densely from zero, with the way back. -/
structure Numbering (α : Type) [BEq α] [LawfulBEq α] [Hashable α] where
  keys : Array α := #[]
  positions : Std.ExtHashMap α Nat := ∅
  agree : ∀ (key : α) (i : Nat), positions[key]? = some i ↔ keys[i]? = some key := by simp

namespace Numbering

variable {α : Type} [BEq α] [LawfulBEq α] [Hashable α]

instance : Inhabited (Numbering α) := ⟨{}⟩

instance : EmptyCollection (Numbering α) := ⟨{}⟩

/-- How many keys are numbered. -/
def size (n : Numbering α) : Nat := n.keys.size

/-- The number of a key. -/
def position? (n : Numbering α) (key : α) : Option Nat := n.positions[key]?

/-- The key of a number. -/
def key? (n : Numbering α) (i : Nat) : Option α := n.keys[i]?

/-- A key without a number is in no place of the table. -/
theorem key?_ne_of_position?_eq_none {n : Numbering α} {key : α} (h : n.position? key = none)
    (i : Nat) : n.keys[i]? ≠ some key := by
  intro hi
  rw [← n.agree] at hi
  simp only [position?] at h
  simp [h] at hi

/-- Gives a new key the next number. -/
def push (n : Numbering α) (key : α) (fresh : n.position? key = none) : Numbering α where
  keys := n.keys.push key
  positions := n.positions.insert key n.keys.size
  agree := by
    intro other i
    have hold := n.agree other i
    have hnone := key?_ne_of_position?_eq_none fresh
    rw [Std.ExtHashMap.getElem?_insert, Array.getElem?_push]
    by_cases hkey : key = other
    · subst hkey
      have := hnone i
      by_cases hi : i = n.keys.size <;> simp_all
      omega
    · by_cases hi : i = n.keys.size
      · subst hi
        simp_all
      · simp_all

/-- The number of a key, which is the next one if the key is new. -/
def intern (n : Numbering α) (key : α) : Nat × Numbering α :=
  match h : n.position? key with
  | some i => (i, n)
  | none => (n.size, n.push key h)

/-- The keys with their numbers, in the order of the numbers. -/
def entries (n : Numbering α) : List (Nat × α) :=
  n.keys.toList.zipIdx.map fun (key, i) => (i, key)

end Numbering

/-- The names of the things of one kind, numbered by their ids. -/
structure Vocabulary (kind : Kind) where
  names : Numbering String := ∅

namespace Vocabulary

variable {kind : Kind}

instance : Inhabited (Vocabulary kind) := ⟨{}⟩

instance : EmptyCollection (Vocabulary kind) := ⟨{}⟩

/-- How many names there are. -/
def size (v : Vocabulary kind) : Nat := v.names.size

/-- The id of a name, which is the next one if the name is new. -/
def intern (v : Vocabulary kind) (name : String) : TypedId kind × Vocabulary kind :=
  let (i, names) := v.names.intern name
  (.ofIndex i, { names })

/-- The ids of several names, interned from left to right. -/
def internAll (v : Vocabulary kind) : List String → List (TypedId kind) × Vocabulary kind
  | [] => ([], v)
  | name :: rest =>
      let (id, v) := v.intern name
      let (ids, v) := v.internAll rest
      (id :: ids, v)

/-- The id of a known name. -/
def id? (v : Vocabulary kind) (name : String) : Option (TypedId kind) :=
  (v.names.position? name).map .ofIndex

/-- The name of an id. -/
def name? (v : Vocabulary kind) (id : TypedId kind) : Option String := v.names.key? id.index

/-- The name of an id, or its decimal form if it has none. -/
def display (v : Vocabulary kind) (id : TypedId kind) : String := (v.name? id).getD id.text

/-- The names with their ids, in the order of the ids. -/
def entries (v : Vocabulary kind) : List (TypedId kind × String) :=
  v.names.entries.map fun (i, name) => (.ofIndex i, name)

/-- The vocabulary of a list of names. -/
def ofList (names : List String) : Vocabulary kind := (internAll ∅ names).2

end Vocabulary

/-- The external ids of the nodes of a network, numbered by the nodes' dense ids. -/
structure NodeTable where
  externals : Numbering ExternalId := ∅

namespace NodeTable

instance : Inhabited NodeTable := ⟨{}⟩

instance : EmptyCollection NodeTable := ⟨{}⟩

/-- How many nodes there are. -/
def size (t : NodeTable) : Nat := t.externals.size

/-- The dense id of an external id. -/
def node? (t : NodeTable) (external : ExternalId) : Option NodeId :=
  (t.externals.position? external).map .ofIndex

/-- The external id of a node. -/
def external? (t : NodeTable) (node : NodeId) : Option ExternalId :=
  t.externals.key? node.index

/-- Gives a new external id the next dense id. -/
def insert (t : NodeTable) (external : ExternalId) : Except Error (NodeId × NodeTable) :=
  match h : t.externals.position? external with
  | some _ => .error (.duplicateNode external)
  | none =>
      if t.size < UInt32.size then
        .ok (.ofIndex t.size, { externals := t.externals.push external h })
      else
        .error (.invalidParameter "node_count" "more than u32::MAX nodes")

end NodeTable

end Hetnet
