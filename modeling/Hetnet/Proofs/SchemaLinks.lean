import Mathlib
import Hetnet.Schema

/-!
# A schema is the set of its links

Recording and merging are told by what they do to the links: `Schema.Adds s grown links`
says that one schema has the links of another, those of a relation, and no others,
over the same labels. Recording a pair adds it in both orders, merging adds what the
other schema has, and a fold of steps adds what any of its steps adds.

Over labels that fit into 32 bits a schema is determined by its links (`ext_contains`),
so two ways to add the same links make the same schema.
-/

namespace Hetnet

namespace Schema

/-- A schema that has grown by the links of a relation, over the same labels. -/
structure Adds (s grown : Schema) (links : LabelId → LabelId → EdgeTypeId → Prop) : Prop where
  labelCount : grown.labelCount = s.labelCount
  contains_iff : ∀ a b edgeType,
    grown.contains a b edgeType = true ↔ s.contains a b edgeType = true ∨ links a b edgeType

/-- The links that an edge of some type between two labels makes, in both orders. -/
def Joins (a b : LabelId) (edgeType : EdgeTypeId) (x y : LabelId) (type : EdgeTypeId) : Prop :=
  type = edgeType ∧ (x = a ∧ y = b ∨ x = b ∧ y = a)

theorem contains_iff_mem {s : Schema} {a b : LabelId} {edgeType : EdgeTypeId} :
    s.contains a b edgeType = true ↔ ⟨b, edgeType⟩ ∈ s.row a.index :=
  Std.ExtTreeSet.contains_iff_mem

theorem mem_links {s : Schema} {a b : LabelId} {edgeType : EdgeTypeId} :
    ⟨b, edgeType⟩ ∈ s.links a ↔ s.contains a b edgeType = true := by
  rw [contains_iff_mem, links, Std.ExtTreeSet.mem_toList]

theorem row_of_labelCount_le {s : Schema} {i : Nat} (h : s.labelCount ≤ i) : s.row i = ∅ := by
  rw [row, Array.getElem?_eq_none h]
  rfl

theorem labelCount_empty (count : Nat) : (empty count).labelCount = count :=
  Array.size_replicate

theorem row_empty (count i : Nat) : (empty count).row i = ∅ := by
  rw [row, empty, Array.getElem?_replicate]
  split <;> rfl

theorem not_contains_empty (count : Nat) (a b : LabelId) (edgeType : EdgeTypeId) :
    ¬ (empty count).contains a b edgeType = true := by
  rw [contains_iff_mem, row_empty]
  exact Std.ExtTreeSet.not_mem_empty

/-- Schemas with as many labels and the same rows are equal. -/
theorem ext_row {s t : Schema} (hcount : s.labelCount = t.labelCount)
    (h : ∀ i, s.row i = t.row i) : s = t := by
  have hrows : s.rows = t.rows := by
    refine Array.ext hcount fun i hs ht => ?_
    have hrow := h i
    rwa [row, row, Array.getElem?_eq_getElem hs, Array.getElem?_eq_getElem ht] at hrow
  cases s
  cases t
  exact congrArg Schema.mk hrows

/-- Schemas with the same labels and the same links are equal. -/
theorem ext_contains {s t : Schema} (hcount : s.labelCount = t.labelCount)
    (hroom : s.labelCount ≤ UInt32.size)
    (h : ∀ a b edgeType, s.contains a b edgeType = true ↔ t.contains a b edgeType = true) :
    s = t := by
  refine ext_row hcount fun i => ?_
  by_cases hi : i < s.labelCount
  · refine Std.ExtTreeSet.ext_mem fun link => ?_
    have hlink := h (.ofIndex i) link.label link.edgeType
    rwa [contains_iff_mem, contains_iff_mem, TypedId.index_ofIndex (lt_of_lt_of_le hi hroom)]
      at hlink
  · have hpast := Nat.le_of_not_lt hi
    rw [row_of_labelCount_le hpast, row_of_labelCount_le (hcount ▸ hpast)]

/-! ## Recording -/

/-- The schema with one more entry in the row of a label. -/
def link (s : Schema) (a : LabelId) (entry : SchemaLink) : Schema :=
  ⟨s.rows.modify a.index (·.insert entry)⟩

theorem labelCount_link (s : Schema) (a : LabelId) (entry : SchemaLink) :
    (s.link a entry).labelCount = s.labelCount :=
  Array.size_modify

theorem mem_row_link {s : Schema} {a : LabelId} (ha : a.index < s.labelCount)
    {entry other : SchemaLink} {i : Nat} :
    other ∈ (s.link a entry).row i ↔ i = a.index ∧ other = entry ∨ other ∈ s.row i := by
  rw [row, row, link, Array.getElem?_modify]
  split
  · next heq =>
      subst heq
      rw [Array.getElem?_eq_getElem ha]
      simp only [Option.map_some, Option.getD_some, Std.ExtTreeSet.mem_insert,
        Std.LawfulEqOrd.compare_eq_iff_eq, true_and]
      rw [eq_comm]
  · next hne => simp [Ne.symm hne]

theorem adds_link {s : Schema} {a : LabelId} (ha : a.index < s.labelCount) (entry : SchemaLink) :
    s.Adds (s.link a entry) fun x y type => x = a ∧ ⟨y, type⟩ = entry := by
  refine ⟨labelCount_link s a entry, fun x y type => ?_⟩
  rw [contains_iff_mem, contains_iff_mem, mem_row_link ha, TypedId.index_inj, or_comm]

theorem record_eq_ok {s : Schema} {a b : LabelId} (ha : a.index < s.labelCount)
    (hb : b.index < s.labelCount) (edgeType : EdgeTypeId) :
    ∃ grown, s.record a b edgeType = .ok grown ∧ s.Adds grown (Joins a b edgeType) := by
  have hinside : s.outside? [a, b] = none := by
    simp [outside?, ha, hb]
  refine ⟨(s.link a ⟨b, edgeType⟩).link b ⟨a, edgeType⟩, ?_, ?_⟩
  · rw [record, hinside]
    rfl
  · have hfirst := adds_link ha ⟨b, edgeType⟩
    have hsecond := adds_link (hfirst.labelCount.symm ▸ hb) ⟨a, edgeType⟩
    refine ⟨hsecond.labelCount.trans hfirst.labelCount, fun x y type => ?_⟩
    rw [hsecond.contains_iff, hfirst.contains_iff, or_assoc, Joins, SchemaLink.mk.injEq,
      SchemaLink.mk.injEq]
    tauto

/-- A fold of steps that each add some links adds the links of all of them. -/
theorem foldlM_adds {α ε : Type} {step : Schema → α → Except ε Schema}
    {links : α → LabelId → LabelId → EdgeTypeId → Prop} {list : List α} {count : Nat}
    (hstep : ∀ a ∈ list, ∀ s : Schema, s.labelCount = count →
      ∃ grown, step s a = .ok grown ∧ s.Adds grown (links a))
    {s : Schema} (hs : s.labelCount = count) :
    ∃ grown, list.foldlM step s = .ok grown ∧
      s.Adds grown fun x y type => ∃ a ∈ list, links a x y type := by
  induction list generalizing s with
  | nil => exact ⟨s, rfl, rfl, fun x y type => by simp⟩
  | cons a rest ih =>
      obtain ⟨middle, hmiddle, hfirst⟩ := hstep a List.mem_cons_self s hs
      obtain ⟨grown, hgrown, hrest⟩ := ih (fun other hother =>
        hstep other (List.mem_cons_of_mem _ hother)) (hfirst.labelCount.trans hs)
      refine ⟨grown, ?_, hrest.labelCount.trans hfirst.labelCount, fun x y type => ?_⟩
      · rw [List.foldlM_cons, hmiddle]
        exact hgrown
      · rw [hrest.contains_iff, hfirst.contains_iff, or_assoc]
        simp only [List.mem_cons, exists_eq_or_imp]

/-! ## Merging -/

theorem labelCount_merge (s t : Schema) :
    (s.merge t).labelCount = max s.labelCount t.labelCount := by
  rw [labelCount, merge, Array.size_map, Array.size_range]

theorem row_merge (s t : Schema) (i : Nat) : (s.merge t).row i = s.row i ∪ t.row i := by
  rw [row, merge, Array.getElem?_map]
  by_cases hi : i < max s.labelCount t.labelCount
  · rw [Array.getElem?_eq_getElem (by simpa using hi), Array.getElem_range]
    rfl
  · -- Past the last label of both there is nothing to unite.
    have hpast := Nat.max_le.mp (Nat.le_of_not_lt hi)
    rw [Array.getElem?_eq_none (by simpa using hi), row_of_labelCount_le hpast.1,
      row_of_labelCount_le hpast.2]
    refine Std.ExtTreeSet.ext_mem fun link => ?_
    simp

theorem contains_merge (s t : Schema) (a b : LabelId) (edgeType : EdgeTypeId) :
    (s.merge t).contains a b edgeType = true ↔
      s.contains a b edgeType = true ∨ t.contains a b edgeType = true := by
  rw [contains_iff_mem, contains_iff_mem, contains_iff_mem, row_merge,
    Std.ExtTreeSet.mem_union_iff]

/-- Schemas over the same labels merge into one that adds the links of all of them. -/
theorem adds_foldl_merge {parts : List Schema} {s : Schema}
    (hparts : ∀ part ∈ parts, part.labelCount = s.labelCount) :
    s.Adds (parts.foldl merge s) fun x y type => ∃ part ∈ parts, part.contains x y type = true := by
  induction parts generalizing s with
  | nil => exact ⟨rfl, fun x y type => by simp⟩
  | cons part rest ih =>
      have hcount : (s.merge part).labelCount = s.labelCount := by
        rw [labelCount_merge, hparts part List.mem_cons_self, Nat.max_self]
      obtain ⟨hlabels, hlinks⟩ := @ih (s.merge part) fun other hother =>
        (hparts other (List.mem_cons_of_mem _ hother)).trans hcount.symm
      refine ⟨hlabels.trans hcount, fun x y type => ?_⟩
      rw [List.foldl_cons, hlinks, contains_merge, or_assoc]
      simp only [List.mem_cons, exists_eq_or_imp]

end Schema

end Hetnet
