import Mathlib
import Hetnet.Proofs.LinkedPaths
import Hetnet.Proofs.Scans

/-!
# Schemas that are changed in place

`Schema.record` and `Schema.merge` take a schema and make another. A program that holds several
schemas changes them in place, and there the order of the steps matters: what is done before a
refusal stays done, and two schemas must have as many rows before they are united row by row.
So both operations are told here once more as steps on a schema, `recordInPlace` and
`mergeInPlace`, and shown to come to the same. A recording looks at both labels before it
touches a row, which is why a refusal leaves nothing behind; a merge appends rows only to the
schema that it changes, which is enough because the other one is not written to.

A row is in the end the union of what both schemas have in that place, for rows that only one of
them has as well. Merging is therefore as commutative, associative and idempotent as the union
of sets, whatever the sizes of the vocabularies, and since the links of an empty schema are
symmetric and every call keeps them so, those of any schema in such a program are.
-/

namespace Hetnet

namespace Schema

/-! ## In place -/

/-- Refuses a label outside the vocabulary. -/
def checkLabel (label : LabelId) : ExceptT Error (StateM Schema) Unit := do
  let s ← get
  if s.labelCount ≤ label.index then
    throw (.internal s!"label {label.text} outside a vocabulary of {s.labelCount} labels")

/-- Links two labels by an edge type, in the rows of both. -/
def recordInPlace (a b : LabelId) (edgeType : EdgeTypeId) :
    ExceptT Error (StateM Schema) Unit := do
  checkLabel a
  checkLabel b
  modify (·.link a ⟨b, edgeType⟩)
  modify (·.link b ⟨a, edgeType⟩)

/-- Takes in the links of another schema: appends empty rows if the other one has more, and
unites row by row as far as it goes. -/
def mergeInPlace (other : Schema) : StateM Schema Unit := do
  modify fun s => ⟨s.rows ++ Array.replicate (other.labelCount - s.labelCount) ∅⟩
  modify fun s => ⟨s.rows.mapIdx fun i row => (other.rows[i]?).elim row (row ∪ ·)⟩

theorem run_checkLabel_bind (s : Schema) (label : LabelId)
    (rest : Unit → ExceptT Error (StateM Schema) Unit) :
    (checkLabel label >>= rest).run.run s =
      if s.labelCount ≤ label.index then
        (.error (.internal s!"label {label.text} outside a vocabulary of {s.labelCount} labels"), s)
      else (rest ()).run.run s := by
  show ((if s.labelCount ≤ label.index then throw _ else pure ()) >>= rest :
    ExceptT Error (StateM Schema) Unit).run.run s = _
  split <;> rfl

/-- Recording in place answers as recording does, and a refused one leaves the schema as it
was. -/
theorem run_recordInPlace (s : Schema) (a b : LabelId) (edgeType : EdgeTypeId) :
    (recordInPlace a b edgeType).run.run s =
      ((s.record a b edgeType).map fun _ => (), s.recorded a b edgeType) := by
  rw [recordInPlace, run_checkLabel_bind, run_checkLabel_bind, recorded, record, outside?,
    List.find?_cons, List.find?_singleton]
  by_cases ha : s.labelCount ≤ a.index
  · simp only [ha, decide_true]
    rfl
  · by_cases hb : s.labelCount ≤ b.index
    · simp only [ha, hb, decide_true, decide_false]
      rfl
    · simp only [ha, hb, decide_false]
      rfl

theorem union_empty (row : Std.ExtTreeSet SchemaLink) : row ∪ ∅ = row :=
  Std.ExtTreeSet.ext_mem fun entry => by simp

theorem run_mergeInPlace (s t : Schema) : (mergeInPlace t).run s = ((), s.merge t) := by
  refine congrArg (Prod.mk ()) (ext_row ?_ fun i => ?_)
  · show ((s.rows ++ Array.replicate _ _).mapIdx _).size = _
    rw [labelCount_merge, Array.size_mapIdx, Array.size_append, Array.size_replicate, labelCount,
      labelCount]
    omega
  · rw [row_merge]
    show (((s.rows ++ Array.replicate _ _).mapIdx _)[i]?).getD ∅ = _
    rw [Array.getElem?_mapIdx, Array.getElem?_append, Array.getElem?_replicate, row, row,
      labelCount, labelCount]
    by_cases hs : i < s.rows.size
    · rw [if_pos hs, Array.getElem?_eq_getElem hs]
      cases t.rows[i]? with
      | none => exact (union_empty _).symm
      | some other => rfl
    · -- The row is one of the empty ones that were appended, or there is none in either schema.
      rw [if_neg hs, Array.getElem?_eq_none (Nat.le_of_not_lt hs)]
      by_cases ht : i < t.rows.size
      · rw [if_pos (by omega), Array.getElem?_eq_getElem ht]
        rfl
      · rw [if_neg (by omega), Array.getElem?_eq_none (Nat.le_of_not_lt ht)]
        exact (union_empty ∅).symm

/-! ## The laws of merging -/

theorem merge_comm (s t : Schema) : s.merge t = t.merge s := by
  refine ext_row ?_ fun i => ?_
  · rw [labelCount_merge, labelCount_merge, Nat.max_comm]
  · rw [row_merge, row_merge]
    refine Std.ExtTreeSet.ext_mem fun entry => ?_
    rw [Std.ExtTreeSet.mem_union_iff, Std.ExtTreeSet.mem_union_iff, or_comm]

theorem merge_self (s : Schema) : s.merge s = s := by
  refine ext_row ?_ fun i => ?_
  · rw [labelCount_merge, Nat.max_self]
  · rw [row_merge]
    refine Std.ExtTreeSet.ext_mem fun entry => ?_
    rw [Std.ExtTreeSet.mem_union_iff, or_self_iff]

/-! ## Labels of a row -/

/-- Every label in a row is in the vocabulary. -/
def Closed (s : Schema) : Prop := ∀ i, ∀ entry ∈ s.row i, entry.label.index < s.labelCount

theorem closed_empty (count : Nat) : (empty count).Closed := by
  intro i entry hentry
  rw [row_empty] at hentry
  exact absurd hentry Std.ExtTreeSet.not_mem_empty

theorem Closed.link {s : Schema} (h : s.Closed) {a b : LabelId} (ha : a.index < s.labelCount)
    (hb : b.index < s.labelCount) (edgeType : EdgeTypeId) : (s.link a ⟨b, edgeType⟩).Closed := by
  intro i entry hentry
  rw [labelCount_link]
  rcases (mem_row_link ha).mp hentry with ⟨-, rfl⟩ | hold
  · exact hb
  · exact h i entry hold

theorem Closed.recorded {s : Schema} (h : s.Closed) (a b : LabelId) (edgeType : EdgeTypeId) :
    (s.recorded a b edgeType).Closed := by
  rw [Schema.recorded]
  cases hrecord : s.record a b edgeType with
  | error error => exact h
  | ok grown =>
      rw [record] at hrecord
      split at hrecord
      · cases hrecord
      · next hinside =>
          cases hrecord
          obtain ⟨ha, hb⟩ : a.index < s.labelCount ∧ b.index < s.labelCount := by
            simpa [outside?] using hinside
          have hfirst : (s.link a ⟨b, edgeType⟩).labelCount = s.labelCount := labelCount_link _ _ _
          exact (h.link ha hb edgeType).link (hfirst.symm ▸ hb) (hfirst.symm ▸ ha) edgeType

theorem Closed.merge {s t : Schema} (hs : s.Closed) (ht : t.Closed) : (s.merge t).Closed := by
  intro i entry hentry
  rw [labelCount_merge]
  rw [row_merge, Std.ExtTreeSet.mem_union_iff] at hentry
  rcases hentry with hin | hin
  · exact lt_of_lt_of_le (hs i entry hin) (Nat.le_max_left _ _)
  · exact lt_of_lt_of_le (ht i entry hin) (Nat.le_max_right _ _)

theorem Reachable.closed {s : Schema} (h : s.Reachable) : s.Closed := by
  induction h with
  | empty count => exact closed_empty count
  | recorded _ a b edgeType ih => exact ih.recorded a b edgeType
  | merge _ _ ihs iht => exact ihs.merge iht

/-- A schema whose links can be taken backwards and stay in its vocabulary. -/
structure Sound (s : Schema) : Prop where
  contains_comm : ∀ a b edgeType, s.contains a b edgeType = s.contains b a edgeType
  closed : s.Closed

theorem Reachable.sound {s : Schema} (h : s.Reachable) : s.Sound where
  contains_comm a b edgeType :=
    Bool.eq_iff_iff.mpr ⟨h.symmetric a b edgeType, h.symmetric b a edgeType⟩
  closed := h.closed

end Schema

/-! ## Several schemas -/

/-- A call on one of several schemas, which are told apart by their names. -/
inductive SchemaCall (ι : Type)
  | record (target : ι) (a b : LabelId) (edgeType : EdgeTypeId)
  | merge (target source : ι)

namespace SchemaCall

variable {ι : Type} [DecidableEq ι]

/-- The answer to a call, and the schemas after it. -/
def run (schemas : ι → Schema) : SchemaCall ι → Except Error Unit × (ι → Schema)
  | record target a b edgeType =>
      let (answer, changed) := (Schema.recordInPlace a b edgeType).run.run (schemas target)
      (answer, Function.update schemas target changed)
  | merge target source =>
      let (_, changed) := (Schema.mergeInPlace (schemas source)).run (schemas target)
      (.ok (), Function.update schemas target changed)

/-- The schemas after a list of calls. -/
def after (schemas : ι → Schema) (calls : List (SchemaCall ι)) : ι → Schema :=
  calls.foldl (fun schemas call => (call.run schemas).2) schemas

/-- A call does what it is for. Recording adds the two links, or is refused for a label outside
the vocabulary and changes nothing; merging unites. No other schema is touched. -/
def TakesEffect (schemas : ι → Schema) (call : SchemaCall ι) : Prop :=
  let (answer, changed) := call.run schemas
  match call with
  | record target a b edgeType =>
      (∀ i, i ≠ target → changed i = schemas i) ∧
      (a.index < (schemas target).labelCount ∧ b.index < (schemas target).labelCount →
        answer = .ok () ∧ (schemas target).Adds (changed target) fun x y type =>
          (x, y, type) = (a, b, edgeType) ∨ (x, y, type) = (b, a, edgeType)) ∧
      (¬ (a.index < (schemas target).labelCount ∧ b.index < (schemas target).labelCount) →
        (∃ error, answer = .error error) ∧ changed = schemas)
  | merge target source =>
      answer = .ok () ∧ (∀ i, i ≠ target → changed i = schemas i) ∧
      (changed target).labelCount = max (schemas target).labelCount (schemas source).labelCount ∧
      ∀ a b edgeType, (changed target).contains a b edgeType =
        ((schemas target).contains a b edgeType || (schemas source).contains a b edgeType)

theorem run_record (schemas : ι → Schema) (target : ι) (a b : LabelId) (edgeType : EdgeTypeId) :
    (record target a b edgeType).run schemas =
      (((schemas target).record a b edgeType).map fun _ => (),
        Function.update schemas target ((schemas target).recorded a b edgeType)) := by
  rw [run, Schema.run_recordInPlace]

theorem run_merge (schemas : ι → Schema) (target source : ι) :
    (merge target source).run schemas =
      (.ok (), Function.update schemas target ((schemas target).merge (schemas source))) := by
  rw [run, Schema.run_mergeInPlace]

theorem reachable_run {schemas : ι → Schema} (h : ∀ i, (schemas i).Reachable)
    (call : SchemaCall ι) (i : ι) : ((call.run schemas).2 i).Reachable := by
  cases call with
  | record target a b edgeType =>
      rw [run_record]
      dsimp only
      by_cases hi : i = target
      · subst hi
        rw [Function.update_self]
        exact (h i).recorded a b edgeType
      · rw [Function.update_of_ne hi]
        exact h i
  | merge target source =>
      rw [run_merge]
      dsimp only
      by_cases hi : i = target
      · subst hi
        rw [Function.update_self]
        exact (h i).merge (h source)
      · rw [Function.update_of_ne hi]
        exact h i

theorem reachable_after {schemas : ι → Schema} (h : ∀ i, (schemas i).Reachable)
    (calls : List (SchemaCall ι)) (i : ι) : (after schemas calls i).Reachable := by
  induction calls generalizing schemas with
  | nil => exact h i
  | cons call rest ih => exact ih (reachable_run h call)

theorem takesEffect (schemas : ι → Schema) (call : SchemaCall ι) : call.TakesEffect schemas := by
  cases call with
  | record target a b edgeType =>
      rw [TakesEffect, run_record]
      refine ⟨fun i hi => Function.update_of_ne hi _ _, fun hin => ?_, fun hout => ?_⟩
      · obtain ⟨grown, hgrown, hadds⟩ := Schema.record_eq_ok hin.1 hin.2 edgeType
        rw [Function.update_self, Schema.recorded, hgrown]
        refine ⟨rfl, hadds.labelCount, fun x y type => ?_⟩
        rw [hadds.contains_iff, Schema.Joins, Prod.mk.injEq, Prod.mk.injEq, Prod.mk.injEq,
          Prod.mk.injEq]
        tauto
      · obtain ⟨error, herror⟩ := Schema.record_eq_error hout edgeType
        rw [Schema.recorded, herror]
        exact ⟨⟨error, rfl⟩, Function.update_eq_self _ _⟩
  | merge target source =>
      rw [TakesEffect, run_merge]
      refine ⟨rfl, fun i hi => Function.update_of_ne hi _ _, ?_, fun a b edgeType => ?_⟩
      · rw [Function.update_self, Schema.labelCount_merge]
      · rw [Function.update_self, Bool.eq_iff_iff, Bool.or_eq_true, Schema.contains_merge]

end SchemaCall

/-- Whatever was recorded, refused and merged among any number of schemas, all of them that
started empty: their links can be taken backwards and stay in the vocabulary, the next call does
what it is for and nothing else, and merging is the union. -/
theorem Schema.sound_after_calls {ι : Type} [DecidableEq ι] (sizes : ι → Nat)
    (calls : List (SchemaCall ι)) :
    let schemas := SchemaCall.after (fun i => empty (sizes i)) calls
    (∀ i, (schemas i).Sound) ∧ (∀ call : SchemaCall ι, call.TakesEffect schemas) ∧
      (∀ s t : Schema, (mergeInPlace t).run s = ((), s.merge t)) ∧
      ∀ s t u : Schema, s.merge t = t.merge s ∧ (s.merge t).merge u = s.merge (t.merge u) ∧
        s.merge s = s := by
  intro schemas
  have hreachable : ∀ i, (schemas i).Reachable :=
    SchemaCall.reachable_after (fun i => .empty (sizes i)) calls
  exact ⟨fun i => (hreachable i).sound, SchemaCall.takesEffect schemas, run_mergeInPlace,
    fun s t u => ⟨merge_comm s t, merge_assoc s t u, merge_self s⟩⟩

end Hetnet
