import Mathlib
import Hetnet.Numbering

/-!
# A number once given stays

Names and external ids are numbered in the order in which they come, and what has a number
keeps it: interning a name leaves the ids of all other names as they are
(`Vocabulary.id?_intern_of_eq_some`), and inserting an external id leaves those that are
there.
-/

namespace Hetnet

namespace Numbering

variable {α : Type} [BEq α] [LawfulBEq α] [Hashable α]

theorem position?_push {n : Numbering α} {key : α} (fresh : n.position? key = none) (other : α) :
    (n.push key fresh).position? other =
      if key == other then some n.size else n.position? other :=
  Std.ExtHashMap.getElem?_insert

theorem position?_push_of_eq_some {n : Numbering α} {key other : α} {i : Nat}
    (fresh : n.position? key = none) (h : n.position? other = some i) :
    (n.push key fresh).position? other = some i := by
  have hne : (key == other) ≠ true := by
    intro heq
    rw [eq_of_beq heq, h] at fresh
    cases fresh
  rw [position?_push, if_neg hne, h]

theorem position?_intern (n : Numbering α) (key : α) :
    (n.intern key).2.position? key = some (n.intern key).1 := by
  unfold intern
  split
  · next i h => exact h
  · next h => rw [position?_push, if_pos BEq.rfl]

theorem position?_intern_of_eq_some {n : Numbering α} {other : α} {i : Nat}
    (h : n.position? other = some i) (key : α) : (n.intern key).2.position? other = some i := by
  unfold intern
  split
  · exact h
  · next fresh => exact position?_push_of_eq_some fresh h

theorem intern_of_eq_some {n : Numbering α} {key : α} {i : Nat} (h : n.position? key = some i) :
    n.intern key = (i, n) := by
  unfold intern
  split
  · next j hj =>
      rw [h] at hj
      cases hj
      rfl
  · next fresh =>
      rw [h] at fresh
      cases fresh

theorem intern_of_eq_none {n : Numbering α} {key : α} (h : n.position? key = none) :
    n.intern key = (n.size, n.push key h) := by
  unfold intern
  split
  · next i hi =>
      rw [h] at hi
      cases hi
  · rfl

theorem position?_empty (key : α) : (∅ : Numbering α).position? key = none :=
  Std.ExtHashMap.getElem?_empty

/-- A key stands in one place of the table. -/
theorem nodup_keys (n : Numbering α) : n.keys.toList.Nodup := by
  refine List.pairwise_iff_getElem.mpr fun i j hi hj hlt heq => ?_
  rw [Array.length_toList] at hi hj
  have hfirst := (n.agree n.keys[i] i).mpr (Array.getElem?_eq_getElem hi)
  have hsecond := (n.agree n.keys[i] j).mpr (by
    rw [Array.getElem?_eq_getElem hj]
    exact congrArg some heq.symm)
  rw [hfirst] at hsecond
  exact absurd (Option.some.inj hsecond) (Nat.ne_of_lt hlt)

/-- There are no more numbers than keys that may have one. -/
theorem size_le_encard {n : Numbering α} {keys : Set α}
    (h : ∀ key i, n.position? key = some i → key ∈ keys) : (n.size : ℕ∞) ≤ keys.encard := by
  classical
  have hsub : (n.keys.toList.toFinset : Set α) ⊆ keys := by
    intro key hkey
    obtain ⟨i, hi⟩ := List.mem_iff_getElem?.mp (List.mem_toFinset.mp hkey)
    exact h key i ((n.agree key i).mpr (by rw [← Array.getElem?_toList, hi]))
  have hcard := Set.encard_le_encard hsub
  rw [Set.encard_coe_eq_coe_finsetCard, List.toFinset_card_of_nodup n.nodup_keys] at hcard
  exact hcard

end Numbering

namespace Vocabulary

variable {kind : Kind}

/-- Whether a name has an id. -/
def Knows (v : Vocabulary kind) (name : String) : Prop := ∃ id, v.id? name = some id

theorem id?_intern (v : Vocabulary kind) (name : String) :
    (v.intern name).2.id? name = some (v.intern name).1 := by
  rw [id?, intern, Numbering.position?_intern]
  rfl

theorem id?_intern_of_eq_some {v : Vocabulary kind} {other : String} {id : TypedId kind}
    (h : v.id? other = some id) (name : String) : (v.intern name).2.id? other = some id := by
  obtain ⟨i, hi, rfl⟩ := Option.map_eq_some_iff.mp h
  rw [id?, intern, Numbering.position?_intern_of_eq_some hi]
  rfl

theorem id?_internAll_of_eq_some {v : Vocabulary kind} {other : String} {id : TypedId kind}
    (h : v.id? other = some id) (names : List String) :
    (v.internAll names).2.id? other = some id := by
  induction names generalizing v with
  | nil => exact h
  | cons name rest ih => exact ih (id?_intern_of_eq_some h name)

theorem intern_of_id? {v : Vocabulary kind} {name : String} {id : TypedId kind}
    (h : v.id? name = some id) : v.intern name = (id, v) := by
  obtain ⟨i, hi, rfl⟩ := Option.map_eq_some_iff.mp h
  rw [intern, Numbering.intern_of_eq_some hi]

/-- Interning changes a vocabulary unless the name is known. -/
theorem intern_eq_self_iff {v : Vocabulary kind} {name : String} :
    (v.intern name).2 = v ↔ v.Knows name := by
  constructor
  · intro h
    exact ⟨_, h ▸ id?_intern v name⟩
  · intro hknown
    obtain ⟨id, hid⟩ := hknown
    rw [intern_of_id? hid]

theorem knows_intern_iff {v : Vocabulary kind} {name other : String} :
    (v.intern name).2.Knows other ↔ v.Knows other ∨ other = name := by
  constructor
  · intro h
    obtain ⟨id, hid⟩ := h
    obtain ⟨i, hi, -⟩ := Option.map_eq_some_iff.mp hid
    cases hname : v.names.position? name with
    | some j =>
        rw [intern, Numbering.intern_of_eq_some hname] at hi
        exact Or.inl ⟨_, Option.map_eq_some_iff.mpr ⟨i, hi, rfl⟩⟩
    | none =>
        rw [intern, Numbering.intern_of_eq_none hname] at hi
        replace hi : (v.names.push name hname).position? other = some i := hi
        rw [Numbering.position?_push] at hi
        split at hi
        · next heq => exact Or.inr (eq_of_beq heq).symm
        · exact Or.inl ⟨_, Option.map_eq_some_iff.mpr ⟨i, hi, rfl⟩⟩
  · rintro (h | rfl)
    · obtain ⟨id, hid⟩ := h
      exact ⟨id, id?_intern_of_eq_some hid name⟩
    · exact ⟨_, id?_intern v other⟩

theorem knows_internAll_iff {v : Vocabulary kind} {names : List String} {other : String} :
    (v.internAll names).2.Knows other ↔ v.Knows other ∨ other ∈ names := by
  induction names generalizing v with
  | nil => simp [internAll]
  | cons name rest ih =>
      show ((v.intern name).2.internAll rest).2.Knows other ↔ _
      rw [ih, knows_intern_iff, List.mem_cons, or_assoc]

theorem not_knows_empty (name : String) : ¬ (∅ : Vocabulary kind).Knows name := by
  intro h
  obtain ⟨id, hid⟩ := h
  have hnone : (∅ : Numbering String).position? name = none := Numbering.position?_empty name
  have hid : ((∅ : Numbering String).position? name).map TypedId.ofIndex = some id := hid
  rw [hnone] at hid
  cases hid

/-- A vocabulary that is small enough for its ids gives different names different ids. -/
theorem name?_eq_some_iff {v : Vocabulary kind} (hroom : v.size ≤ UInt32.size) {id : TypedId kind}
    {name : String} : v.name? id = some name ↔ v.id? name = some id := by
  have hlt : ∀ {i : Nat}, v.names.keys[i]? = some name → i < UInt32.size := fun h =>
    lt_of_lt_of_le (Array.getElem?_eq_some_iff.mp h).1 hroom
  rw [id?, Option.map_eq_some_iff, name?, Numbering.key?]
  constructor
  · intro h
    exact ⟨id.index, (v.names.agree name id.index).mpr h, TypedId.ofIndex_index id⟩
  · intro h
    obtain ⟨i, hi, rfl⟩ := h
    have hkey := (v.names.agree name i).mp hi
    rw [TypedId.index_ofIndex (hlt hkey), hkey]

theorem eq_of_id? {v : Vocabulary kind} (hroom : v.size ≤ UInt32.size) {id : TypedId kind}
    {name other : String} (h : v.id? name = some id) (hother : v.id? other = some id) :
    name = other := by
  rw [← name?_eq_some_iff hroom] at h hother
  rw [h] at hother
  exact Option.some.inj hother

/-- There is room for the ids of names from a small set. -/
theorem size_le_of_knows {v : Vocabulary kind} {names : Set String}
    (hroom : names.encard ≤ UInt32.size) (h : ∀ name, v.Knows name → name ∈ names) :
    v.size ≤ UInt32.size := by
  have hcard : (v.size : ℕ∞) ≤ names.encard := Numbering.size_le_encard fun name i hi =>
    h name ⟨_, Option.map_eq_some_iff.mpr ⟨i, hi, rfl⟩⟩
  exact Nat.cast_le.mp (hcard.trans hroom)

theorem internAll_eq_self_iff {v : Vocabulary kind} {names : List String} :
    (v.internAll names).2 = v ↔ ∀ name ∈ names, v.Knows name := by
  constructor
  · intro h name hname
    exact h ▸ knows_internAll_iff.mpr (Or.inr hname)
  · intro hknown
    induction names with
    | nil => rfl
    | cons first rest ih =>
        have hfirst := intern_eq_self_iff.mpr (hknown first List.mem_cons_self)
        show ((v.intern first).2.internAll rest).2 = v
        rw [hfirst]
        exact ih fun name hname => hknown name (List.mem_cons_of_mem _ hname)

/-- After a list of names has been interned, their ids are the ones that were handed out. -/
theorem mapM_id?_internAll (v : Vocabulary kind) (names : List String) :
    names.mapM (v.internAll names).2.id? = some (v.internAll names).1 := by
  induction names generalizing v with
  | nil => rfl
  | cons name rest ih =>
      have hfirst : (v.internAll (name :: rest)).2.id? name = some (v.intern name).1 :=
        id?_internAll_of_eq_some (id?_intern v name) rest
      rw [List.mapM_cons, hfirst]
      show (rest.mapM ((v.intern name).2.internAll rest).2.id?).bind _ = _
      rw [ih]
      rfl

end Vocabulary

namespace NodeTable

/-- The two ways through a table lead back to each other. -/
theorem node?_eq_some_iff {t : NodeTable} (hroom : t.size ≤ UInt32.size) {external : ExternalId}
    {node : NodeId} : t.node? external = some node ↔ t.external? node = some external := by
  have hlt : ∀ {i : Nat}, t.externals.keys[i]? = some external → i < UInt32.size := fun h =>
    lt_of_lt_of_le (Array.getElem?_eq_some_iff.mp h).1 hroom
  rw [node?, Option.map_eq_some_iff, external?, Numbering.key?]
  constructor
  · intro h
    obtain ⟨i, hi, rfl⟩ := h
    have hkey := (t.externals.agree external i).mp hi
    rw [TypedId.index_ofIndex (hlt hkey), hkey]
  · intro h
    exact ⟨node.index, (t.externals.agree external node.index).mpr h, TypedId.ofIndex_index node⟩

theorem eq_of_node? {t : NodeTable} (hroom : t.size ≤ UInt32.size) {node : NodeId}
    {external other : ExternalId} (h : t.node? external = some node)
    (hother : t.node? other = some node) : external = other := by
  rw [node?_eq_some_iff hroom] at h hother
  rw [h] at hother
  exact Option.some.inj hother

theorem insert_of_eq_some {t : NodeTable} {external : ExternalId} {node : NodeId}
    (h : t.node? external = some node) : t.insert external = .error (.duplicateNode external) := by
  unfold insert
  split
  · rfl
  · next fresh =>
      rw [node?, fresh] at h
      cases h

theorem insert_of_eq_none {t : NodeTable} {external : ExternalId}
    (h : t.externals.position? external = none) (hroom : t.size < UInt32.size) :
    t.insert external = .ok (.ofIndex t.size, ⟨t.externals.push external h⟩) := by
  unfold insert
  split
  · next i hi =>
      rw [h] at hi
      cases hi
  · rw [if_pos hroom]

/-- Everything that an insertion can do: a new external id gets the next number, and what had
a number keeps it. -/
theorem insert_eq_ok {t grown : NodeTable} {external : ExternalId} {node : NodeId}
    (h : t.insert external = .ok (node, grown)) :
    t.node? external = none ∧ t.size < UInt32.size ∧
      grown.externals.keys = t.externals.keys.push external ∧
      ∀ other id, t.node? other = some id → grown.node? other = some id := by
  unfold insert at h
  split at h
  · cases h
  · next fresh =>
      split at h
      · next hroom =>
          cases h
          refine ⟨by rw [node?, fresh]; rfl, hroom, rfl, fun other id hother => ?_⟩
          obtain ⟨i, hi, rfl⟩ := Option.map_eq_some_iff.mp hother
          rw [node?, Numbering.position?_push_of_eq_some fresh hi]
          rfl
      · cases h

end NodeTable

end Hetnet
