import Mathlib
import Hetnet.Rows

/-!
# A stored row is the row that was given

Rows are laid end to end, and row r is what lies between two consecutive offsets. What
makes this right is that every offset is the length of all rows before it, which
pushing a row preserves (`Rows.Holds`). A table made from pairs holds in each row the
values paired with it, each of them once and in increasing order.
-/

namespace Hetnet

/-- Lists with the same members are equal if a key of the members strictly increases in both. -/
theorem ext_of_increasing_on {α β : Type} [Ord α] [Std.TransOrd α] (key : β → α)
    {values others : List β} (hvalues : values.Pairwise fun a b => compare (key a) (key b) = .lt)
    (hothers : others.Pairwise fun a b => compare (key a) (key b) = .lt)
    (hmem : ∀ v, v ∈ values ↔ v ∈ others) : values = others := by
  have : Std.Asymm fun a b : β => compare (key a) (key b) = .lt :=
    ⟨fun a b hlt hgt => by rw [Std.OrientedOrd.eq_swap, hlt] at hgt; cases hgt⟩
  exact hvalues.eq_of_mem_iff hothers hmem

/-- Lists in strictly increasing order with the same members are equal. -/
theorem ext_of_increasing {α : Type} [Ord α] [Std.TransOrd α] {values others : List α}
    (hvalues : values.Pairwise fun a b => compare a b = .lt)
    (hothers : others.Pairwise fun a b => compare a b = .lt)
    (hmem : ∀ v, v ∈ values ↔ v ∈ others) : values = others :=
  ext_of_increasing_on id hvalues hothers hmem

namespace Rows

variable {α : Type}

/-- A table that holds the given rows. -/
structure Holds (t : Rows α) (rows : List (List α)) : Prop where
  values : t.values.toList = rows.flatten
  size : t.offsets.size = rows.length + 1
  offset : ∀ i ≤ rows.length, t.offsets[i]? = some (rows.take i).flatten.length

theorem holds_push {t : Rows α} {rows : List (List α)} (h : t.Holds rows) (row : List α) :
    (t.push row).Holds (rows ++ [row]) := by
  have hvalues : (t.push row).values.toList = (rows ++ [row]).flatten := by
    simp [push, h.values]
  have hlength : (t.push row).values.size = (rows ++ [row]).flatten.length := by
    rw [← hvalues, Array.length_toList]
  refine ⟨hvalues, ?_, fun i hi => ?_⟩
  · show (t.offsets.push _).size = _
    rw [Array.size_push, h.size, List.length_append, List.length_singleton]
  · show (t.offsets.push (t.push row).values.size)[i]? = _
    rw [List.length_append, List.length_singleton] at hi
    rw [Array.getElem?_push, h.size]
    split
    · next heq => rw [hlength, List.take_of_length_le (by simp [heq])]
    · next hne =>
        have hle : i ≤ rows.length := by omega
        rw [h.offset i hle, List.take_append_of_le_length hle]

theorem holds_ofRows (rows : List (List α)) : (ofRows rows).Holds rows := by
  -- What is held before the rest is pushed stands in front of it.
  have hfold : ∀ (t : Rows α) (done : List (List α)), t.Holds done →
      (rows.foldl push t).Holds (done ++ rows) := by
    induction rows with
    | nil =>
        intro t done h
        rw [List.append_nil]
        exact h
    | cons row rest ih =>
        intro t done h
        have hrest := ih _ _ (holds_push h row)
        rw [List.append_assoc] at hrest
        exact hrest
  refine hfold {} [] ⟨rfl, rfl, fun i hi => ?_⟩
  rw [Nat.le_zero.mp hi]
  rfl

theorem row_of_holds {t : Rows α} {rows : List (List α)} (h : t.Holds rows) (r : Nat) :
    t.row r = (rows[r]?).getD [] := by
  rw [row]
  by_cases hr : r < rows.length
  · have hsplit : rows.flatten =
        (rows.take r).flatten ++ (rows[r] ++ (rows.drop (r + 1)).flatten) := by
      rw [← List.flatten_cons, ← List.flatten_append, List.getElem_cons_drop,
        List.take_append_drop]
    have hnext : (rows.take (r + 1)).flatten.length =
        (rows.take r).flatten.length + rows[r].length := by
      rw [List.take_succ_eq_append_getElem hr, List.flatten_append, List.length_append]
      simp
    rw [h.offset r hr.le, h.offset (r + 1) hr, List.getElem?_eq_getElem hr]
    show (t.values.extract _ _).toList = rows[r]
    rw [Array.toList_extract, h.values, hnext, List.extract_eq_take_drop, Nat.add_sub_cancel_left]
    rw [hsplit, List.drop_left, List.take_left]
  · have hnone : t.offsets[r + 1]? = none := by
      rw [Array.getElem?_eq_none_iff, h.size]
      omega
    rw [hnone, List.getElem?_eq_none (by omega)]
    cases t.offsets[r]? <;> rfl

theorem rowCount_of_holds {t : Rows α} {rows : List (List α)} (h : t.Holds rows) :
    t.rowCount = rows.length := by
  rw [rowCount, h.size, Nat.add_sub_cancel]

theorem map_row_of_holds {t : Rows α} {rows : List (List α)} (h : t.Holds rows) :
    (List.range t.rowCount).map t.row = rows := by
  rw [rowCount_of_holds h]
  refine List.ext_getElem (by simp) fun r _ hr => ?_
  simp [row_of_holds h, hr]

/-- A table is determined by the rows that it holds. -/
theorem eq_of_holds {t u : Rows α} {rows : List (List α)} (ht : t.Holds rows)
    (hu : u.Holds rows) : t = u := by
  have hoffsets : t.offsets = u.offsets := by
    refine Array.ext_getElem? fun i => ?_
    by_cases hi : i ≤ rows.length
    · rw [ht.offset i hi, hu.offset i hi]
    · rw [Array.getElem?_eq_none (by rw [ht.size]; omega),
        Array.getElem?_eq_none (by rw [hu.size]; omega)]
  have hvalues : t.values = u.values := Array.toList_inj.mp (ht.values.trans hu.values.symm)
  cases t
  cases u
  exact congrArg₂ Rows.mk hoffsets hvalues

theorem row_ofRows (rows : List (List α)) (r : Nat) : (ofRows rows).row r = (rows[r]?).getD [] :=
  row_of_holds (holds_ofRows rows) r

theorem rowCount_ofRows (rows : List (List α)) : (ofRows rows).rowCount = rows.length :=
  rowCount_of_holds (holds_ofRows rows)

/-! ## Tables made from pairs -/

theorem mem_foldl_modify (pairs : List (Nat × α)) (rows : Array (List α)) (r : Nat) (v : α) :
    v ∈ ((pairs.foldl (fun rows (r, value) => rows.modify r (value :: ·)) rows)[r]?).getD [] ↔
      v ∈ (rows[r]?).getD [] ∨ (r < rows.size ∧ (r, v) ∈ pairs) := by
  induction pairs generalizing rows with
  | nil => simp
  | cons pair rest ih =>
      obtain ⟨q, value⟩ := pair
      rw [List.foldl_cons, ih, Array.size_modify, Array.getElem?_modify]
      by_cases hq : q = r
      · subst hq
        by_cases hlt : q < rows.size
        · rw [Array.getElem?_eq_getElem hlt]
          simp only [if_pos, Option.map_some, Option.getD_some, List.mem_cons, Prod.mk.injEq,
            hlt, true_and]
          tauto
        · rw [Array.getElem?_eq_none (Nat.not_lt.mp hlt)]
          simp [hlt]
      · have hne : (r, v) ≠ (q, value) := fun heq => hq (Prod.mk.inj heq).1.symm
        rw [if_neg hq, List.mem_cons, or_iff_right hne]

theorem mem_buckets {count : Nat} {pairs : List (Nat × α)} {r : Nat} {v : α} :
    v ∈ ((buckets count pairs)[r]?).getD [] ↔ r < count ∧ (r, v) ∈ pairs := by
  rw [buckets, mem_foldl_modify, Array.size_replicate, Array.getElem?_replicate]
  refine or_iff_right fun h => ?_
  split at h <;> cases h

theorem mem_ascending [Ord α] [Std.TransOrd α] [Std.LawfulEqOrd α] {values : List α} {v : α} :
    v ∈ ascending values ↔ v ∈ values := by
  classical
  rw [ascending, Std.ExtTreeSet.mem_toList, Std.ExtTreeSet.mem_ofList, List.contains_iff_mem]

/-- The row of a known number holds the values paired with it. -/
theorem mem_row_ofPairs [Ord α] [Std.TransOrd α] [Std.LawfulEqOrd α] {count : Nat}
    {pairs : List (Nat × α)} {r : Nat} {v : α} :
    v ∈ (ofPairs count pairs).row r ↔ r < count ∧ (r, v) ∈ pairs := by
  rw [← mem_buckets, ofPairs, row_ofRows, List.getElem?_map, Array.getElem?_toList]
  cases (buckets count pairs)[r]? with
  | none => rfl
  | some values => exact mem_ascending

/-! ## Rows in order

A row made from pairs is strictly increasing, so a table made from pairs holds no
value of a row twice: the number of its values is the number of different pairs. -/

/-- The values of a table in order, each with the number of its row. -/
def entries (t : Rows α) : List (Nat × α) :=
  (List.range t.rowCount).flatMap fun r => (t.row r).map (r, ·)

theorem map_snd_entries {t : Rows α} {rows : List (List α)} (h : t.Holds rows) :
    t.entries.map Prod.snd = t.values.toList := by
  rw [h.values, ← map_row_of_holds h, ← List.flatMap_def, entries, List.map_flatMap]
  refine List.flatMap_congr fun r _ => ?_
  rw [List.map_map]
  exact List.map_id _

theorem length_entries {t : Rows α} {rows : List (List α)} (h : t.Holds rows) :
    t.entries.length = t.valueCount := by
  rw [valueCount, ← Array.length_toList, ← map_snd_entries h, List.length_map]

theorem size_foldl_modify (pairs : List (Nat × α)) (rows : Array (List α)) :
    (pairs.foldl (fun rows (r, value) => rows.modify r (value :: ·)) rows).size = rows.size := by
  induction pairs generalizing rows with
  | nil => rfl
  | cons pair rest ih => rw [List.foldl_cons, ih, Array.size_modify]

section

variable [Ord α] [Std.TransOrd α]

theorem pairwise_ascending (values : List α) :
    (ascending values).Pairwise fun a b => compare a b = .lt :=
  Std.ExtTreeSet.ordered_toList

theorem ascending_ne_nil {values : List α} (h : values ≠ []) : ascending values ≠ [] := by
  rw [ascending, Ne, Std.ExtTreeSet.toList_eq_nil_iff, Std.ExtTreeSet.ofList_eq_empty_iff]
  exact h

theorem pairwise_row_ofPairs (count : Nat) (pairs : List (Nat × α)) (r : Nat) :
    ((ofPairs count pairs).row r).Pairwise fun a b => compare a b = .lt := by
  rw [ofPairs, row_ofRows, List.getElem?_map]
  cases (buckets count pairs).toList[r]? with
  | none => exact List.Pairwise.nil
  | some values => exact pairwise_ascending values

theorem rowCount_ofPairs (count : Nat) (pairs : List (Nat × α)) :
    (ofPairs count pairs).rowCount = count := by
  rw [ofPairs, rowCount_ofRows, List.length_map, Array.length_toList, buckets, size_foldl_modify,
    Array.size_replicate]

theorem holds_ofPairs (count : Nat) (pairs : List (Nat × α)) :
    (ofPairs count pairs).Holds ((List.range count).map (ofPairs count pairs).row) := by
  have hrows := map_row_of_holds (holds_ofRows ((buckets count pairs).toList.map ascending))
  rw [← ofPairs, rowCount_ofPairs] at hrows
  rw [hrows]
  exact holds_ofRows _

variable [Std.LawfulEqOrd α]

/-- A table made from pairs is determined by the pairs of its own rows. -/
theorem ofPairs_congr {count : Nat} {pairs others : List (Nat × α)}
    (h : ∀ pair, pair.1 < count → (pair ∈ others ↔ pair ∈ pairs)) :
    ofPairs count others = ofPairs count pairs := by
  have hrow : (ofPairs count others).row = (ofPairs count pairs).row := by
    funext r
    refine ext_of_increasing (pairwise_row_ofPairs _ _ r) (pairwise_row_ofPairs _ _ r) fun v => ?_
    rw [mem_row_ofPairs, mem_row_ofPairs]
    exact and_congr_right fun hr => h (r, v) hr
  refine eq_of_holds (holds_ofPairs count others) ?_
  rw [hrow]
  exact holds_ofPairs count pairs

theorem mem_entries_ofPairs {count : Nat} {pairs : List (Nat × α)} {pair : Nat × α} :
    pair ∈ (ofPairs count pairs).entries ↔ pair.1 < count ∧ pair ∈ pairs := by
  rw [entries, rowCount_ofPairs, List.mem_flatMap]
  constructor
  · intro hin
    obtain ⟨r, -, hrow⟩ := hin
    obtain ⟨value, hvalue, rfl⟩ := List.mem_map.mp hrow
    exact mem_row_ofPairs.mp hvalue
  · intro hin
    exact ⟨pair.1, List.mem_range.mpr hin.1,
      List.mem_map.mpr ⟨pair.2, mem_row_ofPairs.mpr hin, rfl⟩⟩

theorem nodup_entries_ofPairs (count : Nat) (pairs : List (Nat × α)) :
    (ofPairs count pairs).entries.Nodup := by
  refine List.nodup_flatMap.mpr ⟨fun r _ => ?_, ?_⟩
  · refine List.Nodup.map (fun a b heq => (Prod.mk.inj heq).2) ?_
    refine (pairwise_row_ofPairs count pairs r).imp fun {a b} hlt heq => ?_
    rw [Std.LawfulEqOrd.compare_eq_iff_eq.mpr heq] at hlt
    cases hlt
  -- Different rows have different numbers.
  · refine List.nodup_range.imp fun {r s} hne pair hr hs => ?_
    obtain ⟨_, -, rfl⟩ := List.mem_map.mp hr
    obtain ⟨_, -, heq⟩ := List.mem_map.mp hs
    exact hne (Prod.mk.inj heq).1.symm

/-- A table made from pairs holds as many values as there are different pairs that name one
of its rows. -/
theorem valueCount_ofPairs [DecidableEq α] (count : Nat) (pairs : List (Nat × α)) :
    (ofPairs count pairs).valueCount =
      (pairs.filter fun pair => pair.1 < count).dedup.length := by
  have hlength : (ofPairs count pairs).entries.length = (ofPairs count pairs).valueCount :=
    length_entries (holds_ofRows _)
  rw [← hlength]
  refine List.Perm.length_eq ?_
  refine (List.perm_ext_iff_of_nodup (nodup_entries_ofPairs _ _) (List.nodup_dedup _)).mpr ?_
  intro pair
  rw [mem_entries_ofPairs, List.mem_dedup, List.mem_filter, decide_eq_true_iff, and_comm]

end

end Rows

/-! ## The orders of ids and arcs -/

theorem TypedId.compare_eq_lt {kind : Kind} {a b : TypedId kind} :
    compare a b = .lt ↔ a.index < b.index := by
  show compare a.raw b.raw = .lt ↔ _
  rw [Std.compare_eq_lt, UInt32.lt_iff_toNat_lt]
  rfl

theorem Arc.compare_eq_lt {a b : Arc} :
    compare a b = .lt ↔ a.src.index < b.src.index ∨ a.src = b.src ∧ a.dst.index < b.dst.index := by
  show (compare a.src b.src).then (compare a.dst b.dst) = .lt ↔ _
  rw [Ordering.then_eq_lt, TypedId.compare_eq_lt, TypedId.compare_eq_lt,
    Std.LawfulEqOrd.compare_eq_iff_eq]

end Hetnet
