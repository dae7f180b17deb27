import Mathlib
import Hetnet.Proofs.SchemaRuns

/-!
# The record of a schema

A schema leaves the library as a record, and two networks with the same links have to leave it as
the same record, although their links were found in different orders. Every row of a record is
sorted and holds nothing twice, so it is determined by its members, and the members are what
the schema contains (`Schema.RecordedBy`). In which order a set hands out its members makes no
difference, because they are sorted before they are written (`recordListed_eq_toRecord`).

Nothing is lost either. The rows of a record are the rows of the schema, in their places, and a
row that is empty is written as such, so that the number of labels can be read off as well.
Labels are counted in a word of 32 bits when a record is made, hence a schema of more labels than
that is no longer written in full.
-/

namespace Hetnet

theorem SchemaLink.compare_eq_lt {x y : SchemaLink} :
    compare x y = .lt ↔
      x.label.index < y.label.index ∨ x.label = y.label ∧ x.edgeType.index < y.edgeType.index := by
  show (compare x.label y.label).then (compare x.edgeType y.edgeType) = .lt ↔ _
  rw [Ordering.then_eq_lt, TypedId.compare_eq_lt, TypedId.compare_eq_lt,
    Std.LawfulEqOrd.compare_eq_iff_eq]

theorem Rows.ascending_eq_toList {α : Type} [Ord α] [Std.TransOrd α] [Std.LawfulEqOrd α]
    {row : Std.ExtTreeSet α} {values : List α} (h : ∀ v, v ∈ values ↔ v ∈ row) :
    ascending values = row.toList := by
  classical
  refine congrArg Std.ExtTreeSet.toList (Std.ExtTreeSet.ext_mem fun v => ?_)
  rw [Std.ExtTreeSet.mem_ofList, List.contains_iff_mem, h]

namespace Schema

variable {s t : Schema}

/-! ## Records of listed rows -/

/-- Lists of the links of every label, in whatever order they are met. -/
def Lists (s : Schema) (order : LabelId → List SchemaLink) : Prop :=
  ∀ a link, link ∈ order a ↔ s.contains a link.label link.edgeType = true

/-- The record that is made by sorting what is listed for each label. The labels are counted in a
word of 32 bits. -/
def recordListed (count : Nat) (order : LabelId → List SchemaLink) : SchemaRecord where
  version := recordVersion
  rows := (List.range (count % UInt32.size)).map fun i => Rows.ascending (order (.ofIndex i))

theorem length_rows_toRecord (s : Schema) : s.toRecord.rows.length = s.labelCount :=
  List.length_map _

theorem getElem?_rows_toRecord (s : Schema) {i : Nat} (hi : i < s.labelCount) :
    s.toRecord.rows[i]? = some (s.row i).toList := by
  show (s.rows.toList.map _)[i]? = _
  rw [List.getElem?_map, Array.getElem?_toList, row, Array.getElem?_eq_getElem hi]
  rfl

/-- The order in which the links are listed is not seen in the record. -/
theorem recordListed_eq_toRecord (hroom : s.labelCount < UInt32.size)
    {order : LabelId → List SchemaLink} (h : s.Lists order) :
    recordListed s.labelCount order = s.toRecord := by
  refine congrArg (SchemaRecord.mk recordVersion) (List.ext_getElem? fun i => ?_)
  rw [Nat.mod_eq_of_lt hroom, List.getElem?_map]
  by_cases hi : i < s.labelCount
  · rw [List.getElem?_range hi]
    refine Eq.trans ?_ (s.getElem?_rows_toRecord hi).symm
    refine congrArg some (Rows.ascending_eq_toList fun link => ?_)
    rw [h, contains_iff_mem, TypedId.index_ofIndex (hi.trans hroom)]
  · have hpast := Nat.le_of_not_lt hi
    rw [List.getElem?_eq_none (by rwa [List.length_range])]
    exact (List.getElem?_eq_none (by rwa [List.length_map, Array.length_toList])).symm

/-! ## What a record shows -/

/-- A record that shows a schema: its rows are strictly increasing, they hold the links and
nothing else, and sizes and emptiness are those of the schema. -/
structure RecordedBy (s : Schema) (record : SchemaRecord) : Prop where
  length : record.rows.length = s.labelCount
  increasing : ∀ row ∈ record.rows, row.Pairwise fun x y =>
    x.label.index < y.label.index ∨ x.label = y.label ∧ x.edgeType.index < y.edgeType.index
  mem_row : ∀ a b edgeType,
    (∃ row, record.rows[a.index]? = some row ∧ ⟨b, edgeType⟩ ∈ row) ↔
      s.contains a b edgeType = true
  pairCount : (record.rows.map List.length).sum = s.pairCount
  isEmpty : s.isEmpty = true ↔ ∀ row ∈ record.rows, row = []

theorem mem_row_toRecord (s : Schema) (a b : LabelId) (edgeType : EdgeTypeId) :
    (∃ row, s.toRecord.rows[a.index]? = some row ∧ ⟨b, edgeType⟩ ∈ row) ↔
      s.contains a b edgeType = true := by
  rw [contains_iff_mem]
  by_cases ha : a.index < s.labelCount
  · rw [s.getElem?_rows_toRecord ha]
    simp only [Option.some.injEq, exists_eq_left', Std.ExtTreeSet.mem_toList]
  · -- The label has no row in the record, and an empty one in the schema.
    have hpast := Nat.le_of_not_lt ha
    rw [List.getElem?_eq_none (by rwa [length_rows_toRecord]), row_of_labelCount_le hpast]
    simp

theorem sum_length_rows_toRecord (s : Schema) :
    (s.toRecord.rows.map List.length).sum = s.pairCount := by
  show ((s.rows.toList.map _).map _).sum = s.rows.toList.foldr _ 0
  induction s.rows.toList with
  | nil => rfl
  | cons row rest ih =>
      rw [List.map_cons, List.map_cons, List.sum_cons, ih, Std.ExtTreeSet.length_toList]
      rfl

theorem isEmpty_iff_rows_toRecord (s : Schema) :
    s.isEmpty = true ↔ ∀ row ∈ s.toRecord.rows, row = [] := by
  have hrows : s.isEmpty = s.rows.toList.all (·.isEmpty) := Array.all_toList.symm
  rw [hrows, List.all_eq_true]
  show _ ↔ ∀ row ∈ s.rows.toList.map _, row = []
  rw [List.forall_mem_map]
  refine forall₂_congr fun row _ => ?_
  rw [Std.ExtTreeSet.toList_eq_nil_iff, Std.ExtTreeSet.isEmpty_iff]

theorem recordedBy_toRecord (s : Schema) : s.RecordedBy s.toRecord where
  length := s.length_rows_toRecord
  increasing := by
    intro row hrow
    obtain ⟨entries, -, rfl⟩ := List.mem_map.mp hrow
    exact Std.ExtTreeSet.ordered_toList.imp SchemaLink.compare_eq_lt.mp
  mem_row := s.mem_row_toRecord
  pairCount := s.sum_length_rows_toRecord
  isEmpty := s.isEmpty_iff_rows_toRecord

/-! ## A record determines its schema -/

theorem toRecord_inj : s.toRecord = t.toRecord ↔ s = t := by
  refine ⟨fun h => ?_, congrArg toRecord⟩
  have hcount : s.labelCount = t.labelCount := by
    rw [← length_rows_toRecord, ← length_rows_toRecord, h]
  refine ext_row hcount fun i => ?_
  by_cases hi : i < s.labelCount
  · have hrow := s.getElem?_rows_toRecord hi
    rw [h, t.getElem?_rows_toRecord (hcount ▸ hi), Option.some_inj] at hrow
    exact (Std.ExtTreeSet.toList_inj.mp hrow).symm
  · have hpast := Nat.le_of_not_lt hi
    rw [row_of_labelCount_le hpast, row_of_labelCount_le (hcount ▸ hpast)]

theorem eq_iff_contains (hroom : s.labelCount ≤ UInt32.size) :
    s = t ↔ s.labelCount = t.labelCount ∧
      ∀ a b edgeType, s.contains a b edgeType = t.contains a b edgeType := by
  constructor
  · rintro rfl
    exact ⟨rfl, fun _ _ _ => rfl⟩
  · intro h
    exact ext_contains h.1 hroom fun a b edgeType => by rw [h.2]

/-- The record of a schema shows the schema and nothing of how it was made: it is the same in
whatever order the links are listed, and two schemas have the same record exactly if they are
equal, that is if they have as many labels and contain the same links. -/
theorem record_canonical {s : Schema} (hroom : s.labelCount < UInt32.size) :
    s.RecordedBy s.toRecord ∧
      (∀ order, s.Lists order → recordListed s.labelCount order = s.toRecord) ∧
      ∀ t : Schema, t.labelCount < UInt32.size →
        (s.toRecord = t.toRecord ↔ s = t) ∧
        (s = t ↔ s.labelCount = t.labelCount ∧
          ∀ a b edgeType, s.contains a b edgeType = t.contains a b edgeType) :=
  ⟨recordedBy_toRecord s, fun _ => recordListed_eq_toRecord hroom, fun _ _ =>
    ⟨toRecord_inj, eq_iff_contains hroom.le⟩⟩

/-- Two links recorded one after the other. -/
def oneByOne : Schema :=
  SchemaCall.after (fun _ : Bool => empty 2)
    [.record true ⟨0⟩ ⟨1⟩ ⟨0⟩, .record true ⟨1⟩ ⟨1⟩ ⟨3⟩] true

/-- The same links recorded apart, the first of them from its other end, and then united. -/
def united : Schema :=
  SchemaCall.after (fun _ : Bool => empty 2)
    [.record true ⟨1⟩ ⟨1⟩ ⟨3⟩, .record false ⟨1⟩ ⟨0⟩ ⟨0⟩, .merge true false] true

/-- Two ways to record the same links end in the same record, listing the links backwards
does as well, and one more label makes another record. -/
theorem record_canonical_united :
    oneByOne.labelCount < UInt32.size ∧ united.labelCount < UInt32.size ∧
      oneByOne.Lists (fun a => (oneByOne.links a).reverse) ∧
      oneByOne.RecordedBy oneByOne.toRecord ∧
      recordListed 2 (fun a => (oneByOne.links a).reverse) = oneByOne.toRecord ∧
      oneByOne.toRecord = united.toRecord ∧ oneByOne.toRecord ≠ (empty 3).toRecord := by
  have hroom : oneByOne.labelCount < UInt32.size := by decide +kernel
  have hother : united.labelCount < UInt32.size := by decide +kernel
  have hlists : oneByOne.Lists fun a => (oneByOne.links a).reverse := fun a link =>
    List.mem_reverse.trans mem_links
  obtain ⟨hshows, hlisted, hdetermined⟩ := record_canonical hroom
  refine ⟨hroom, hother, hlists, hshows, hlisted _ hlists,
    (hdetermined united hother).1.mpr (by decide +kernel), ?_⟩
  rw [Ne, (hdetermined (empty 3) (by decide +kernel)).1]
  decide +kernel

end Schema

end Hetnet
