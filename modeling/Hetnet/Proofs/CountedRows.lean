import Mathlib
import Hetnet.Capacity
import Hetnet.Proofs.StoredRows

/-!
# Rows that are counted out

`Rows.ofPairs` throws each value into the bucket of its row and lays the buckets end to end. The
same table is made without buckets if the pairs are sorted first: repetitions stand side
by side then and are dropped, the pairs of each row are counted, and the counts are added up in
place, entry by entry, until they are offsets (`Rows.layOut`). Every entry that is read or
written must exist, no sum may wrap around its word, and the offsets must cut the values exactly
where the rows change, also if a row is empty.

One number is behind all of it. An entry that the sum has passed holds the number of pairs of the
rows before it, and an entry that it has not yet reached holds the number of pairs of
the single row before it (`addUp_counts`). In sorted pairs those of the rows before come
first (`filter_lt_succ`), so that their number is the place at which the row begins. There are no
more of them than there are pairs in all, hence it fits a word.
-/

namespace Hetnet

namespace Rows

variable {α : Type}

/-! ## Counting, then adding up -/

/-- What happens to a program that asks for an entry that does not exist. -/
def missing (offsets : Array UInt64) (i : Nat) : Failure :=
  .crash s!"index out of bounds: the len is {offsets.size} but the index is {i}"

/-- An entry. -/
def entry (offsets : Array UInt64) (i : Nat) : Except Failure UInt64 :=
  match offsets[i]? with
  | some amount => .ok amount
  | none => .error (missing offsets i)

/-- Adds to an entry; sums wrap around. -/
def bump (offsets : Array UInt64) (i : Nat) (amount : UInt64) : Except Failure (Array UInt64) :=
  if i < offsets.size then .ok (offsets.modify i (· + amount)) else .error (missing offsets i)

/-- Counts the pairs of every row in the entry after that of the row. -/
def countOut (offsets : Array UInt64) (pairs : List (Nat × α)) :
    Except Failure (Array UInt64) :=
  pairs.foldlM (fun offsets pair => bump offsets (pair.1 + 1) 1) offsets

/-- Adds to each entry up to that of `count` the entry before it, from left to right. -/
def addUp (count : Nat) (offsets : Array UInt64) : Except Failure (Array UInt64) :=
  (List.range count).foldlM (fun offsets r => do bump offsets (r + 1) (← entry offsets r)) offsets

/-- The table of pairs that stand in order, with repetitions side by side. The offsets are
requested at their full number, which wraps around too. -/
def layOut [DecidableEq α] (count : UInt64) (arranged : List (Nat × α)) :
    Except Failure (Rows α) := do
  let pairs := arranged.destutter (· ≠ ·)
  reserve (count + 1).toNat 8
  let counted ← countOut (Array.replicate (count + 1).toNat 0) pairs
  let offsets ← addUp count.toNat counted
  return { offsets := offsets.map UInt64.toNat, values := (pairs.map Prod.snd).toArray }

theorem bump_map {size i : Nat} (h : i < size) (f : Nat → UInt64) (amount : UInt64) :
    bump ((Array.range size).map f) i amount =
      .ok ((Array.range size).map (Function.update f i (f i + amount))) := by
  rw [bump, if_pos (by simpa using h)]
  refine congrArg Except.ok (Array.ext (by simp) fun j hj _ => ?_)
  rw [Array.getElem_modify]
  by_cases hij : i = j
  · subst hij
    simp
  · simp [hij, Function.update_of_ne (Ne.symm hij)]

theorem entry_map {size i : Nat} (h : i < size) (f : Nat → UInt64) :
    entry ((Array.range size).map f) i = .ok (f i) := by
  rw [entry, Array.getElem?_map, Array.getElem?_range, if_pos h]
  rfl

theorem countOut_map {size : Nat} {pairs : List (Nat × α)}
    (h : ∀ pair ∈ pairs, pair.1 + 1 < size) (f : Nat → UInt64) :
    countOut ((Array.range size).map f) pairs =
      .ok ((Array.range size).map fun i =>
        f i + .ofNat (pairs.countP fun pair => pair.1 + 1 = i)) := by
  induction pairs generalizing f with
  | nil =>
      refine congrArg Except.ok (congrArg (Array.map · _) (funext fun i => ?_))
      exact (UInt64.add_zero (f i)).symm
  | cons pair rest ih =>
      obtain ⟨hpair, hrest⟩ := List.forall_mem_cons.mp h
      rw [countOut, List.foldlM_cons, bump_map hpair]
      refine (ih hrest _).trans
        (congrArg Except.ok (congrArg (Array.map · _) (funext fun i => ?_)))
      rw [List.countP_cons]
      by_cases hi : pair.1 + 1 = i
      · subst hi
        rw [Function.update_self, if_pos (decide_eq_true rfl), UInt64.ofNat_add, UInt64.add_assoc,
          UInt64.add_comm 1]
        rfl
      · rw [Function.update_of_ne (Ne.symm hi), if_neg (by simpa using hi), Nat.add_zero]

/-! ## Sorted pairs -/

/-- Pairs in the order of their rows. -/
def ByRow (pairs : List (Nat × α)) : Prop := pairs.Pairwise fun p q => p.1 ≤ q.1

/-- The values that are paired with a row, as they come. -/
def valuesOf (pairs : List (Nat × α)) (r : Nat) : List α :=
  (pairs.filter fun pair => pair.1 = r).map Prod.snd

/-- The pairs of a row stand right after those of the rows before it. -/
theorem filter_lt_succ {pairs : List (Nat × α)} (h : ByRow pairs) (n : Nat) :
    pairs.filter (fun pair => pair.1 < n + 1) =
      pairs.filter (fun pair => pair.1 < n) ++ pairs.filter fun pair => pair.1 = n := by
  induction pairs with
  | nil => rfl
  | cons pair rest ih =>
      obtain ⟨hpair, hrest⟩ := List.pairwise_cons.mp h
      rcases lt_trichotomy pair.1 n with hlt | heq | hgt
      · rw [List.filter_cons_of_pos (by simp; omega), List.filter_cons_of_pos (by simpa using hlt),
          List.filter_cons_of_neg (by simp; omega), ih hrest, List.cons_append]
      · have hnone : rest.filter (fun pair => pair.1 < n) = [] := by
          rw [List.filter_eq_nil_iff]
          intro other hother
          have hle := hpair other hother
          simp
          omega
        rw [List.filter_cons_of_pos (by simp; omega), List.filter_cons_of_neg (by simp; omega),
          List.filter_cons_of_pos (by simpa using heq), ih hrest, hnone, List.nil_append,
          List.nil_append]
      · rw [List.filter_cons_of_neg (by simp; omega), List.filter_cons_of_neg (by simp; omega),
          List.filter_cons_of_neg (by simp; omega), ih hrest]

theorem flatten_valuesOf {pairs : List (Nat × α)} (h : ByRow pairs) (n : Nat) :
    ((List.range n).map (valuesOf pairs)).flatten =
      (pairs.filter fun pair => pair.1 < n).map Prod.snd := by
  induction n with
  | zero => simp
  | succ n ih =>
      rw [List.range_succ, List.map_append, List.flatten_append, ih, filter_lt_succ h,
        List.map_append, List.map_singleton, List.flatten_singleton, valuesOf]

theorem countP_lt_succ {pairs : List (Nat × α)} (h : ByRow pairs) (n : Nat) :
    pairs.countP (fun pair => pair.1 < n + 1) =
      (pairs.countP fun pair => pair.1 + 1 = n + 1) + pairs.countP fun pair => pair.1 < n := by
  simp only [List.countP_eq_length_filter, Nat.add_right_cancel_iff]
  rw [filter_lt_succ h, List.length_append, Nat.add_comm]

theorem addUp_succ (n : Nat) (offsets : Array UInt64) :
    addUp (n + 1) offsets = addUp n offsets >>= fun summed =>
      entry summed n >>= bump summed (n + 1) := by
  rw [addUp, List.range_succ, List.foldlM_append]
  refine bind_congr fun summed => ?_
  rw [List.foldlM_cons]
  exact bind_pure _

/-- When the sum has come to entry `n`, the entries up to there hold the number of pairs of all
rows before them, and the others still that of one row. -/
theorem addUp_counts {pairs : List (Nat × α)} (h : ByRow pairs) {count n : Nat} (hn : n ≤ count) :
    addUp n ((Array.range (count + 1)).map fun i =>
        .ofNat (pairs.countP fun pair => pair.1 + 1 = i)) =
      .ok ((Array.range (count + 1)).map fun i =>
        .ofNat (if i ≤ n then pairs.countP fun pair => pair.1 < i
          else pairs.countP fun pair => pair.1 + 1 = i)) := by
  induction n with
  | zero =>
      refine congrArg Except.ok (congrArg (Array.map · _) (funext fun i => congrArg _ ?_))
      split
      · next hi =>
          rw [Nat.le_zero.mp hi]
          simp
      · rfl
  | succ n ih =>
      rw [addUp_succ, ih (Nat.le_of_succ_le hn)]
      show entry _ n >>= _ = _
      rw [entry_map (by omega), if_pos le_rfl]
      show bump _ _ _ = _
      rw [bump_map (by omega)]
      refine congrArg Except.ok (congrArg (Array.map · _) (funext fun i => ?_))
      by_cases hi : i = n + 1
      · subst hi
        rw [Function.update_self, if_neg (by omega), if_pos le_rfl, countP_lt_succ h,
          UInt64.ofNat_add]
      · rw [Function.update_of_ne hi]
        refine congrArg _ (if_congr ?_ rfl rfl)
        omega

/-- After the last entry, every entry is an offset. -/
theorem addUp_all {pairs : List (Nat × α)} (h : ByRow pairs) (count : Nat) :
    addUp count ((Array.range (count + 1)).map fun i =>
        .ofNat (pairs.countP fun pair => pair.1 + 1 = i)) =
      .ok ((Array.range (count + 1)).map fun i =>
        .ofNat (pairs.countP fun pair => pair.1 < i)) := by
  rw [addUp_counts h le_rfl]
  refine congrArg Except.ok (Array.map_congr_left fun i hi => ?_)
  rw [if_pos (Nat.le_of_lt_succ (Array.mem_range.mp hi))]

/-! ## The table of sorted pairs -/

/-- Cut at these numbers, the values of sorted pairs are the values of each row. -/
theorem holds_countP {pairs : List (Nat × α)} (h : ByRow pairs) {count : Nat}
    (hrows : ∀ pair ∈ pairs, pair.1 < count) :
    (Rows.mk ((Array.range (count + 1)).map fun i => pairs.countP fun pair => pair.1 < i)
      (pairs.map Prod.snd).toArray).Holds ((List.range count).map (valuesOf pairs)) where
  values := by
    have hall : pairs.filter (fun pair => pair.1 < count) = pairs :=
      List.filter_eq_self.mpr fun pair hpair => decide_eq_true (hrows pair hpair)
    rw [flatten_valuesOf h, hall]
  size := by simp
  offset := by
    intro i hi
    rw [List.length_map, List.length_range] at hi
    have htake : ((List.range count).map (valuesOf pairs)).take i =
        (List.range i).map (valuesOf pairs) := by
      rw [← List.map_take, List.take_range, Nat.min_eq_left hi]
    rw [htake, flatten_valuesOf h, List.length_map, ← List.countP_eq_length_filter,
      Array.getElem?_map, Array.getElem?_range, if_pos (by omega)]
    rfl

/-- If there is room for the offsets, their number does not wrap around. -/
theorem toNat_succ_of_reserve {count : UInt64} (h : reserve (count.toNat + 1) 8 = .ok ()) :
    (count + 1).toNat = count.toNat + 1 := by
  have hle : (count.toNat + 1) * 8 ≤ addressableBytes := by
    by_contra hfull
    rw [reserve, if_neg hfull] at h
    cases h
  have hbytes : addressableBytes < 8 * 2 ^ 64 := by decide
  rw [UInt64.toNat_add]
  exact Nat.mod_eq_of_lt (show count.toNat + 1 < 2 ^ 64 by omega)

theorem layOut_eq_ok [DecidableEq α] {count : UInt64} {arranged pairs : List (Nat × α)}
    (hpairs : arranged.destutter (· ≠ ·) = pairs) (h : ByRow pairs)
    (hrows : ∀ pair ∈ pairs, pair.1 < count.toNat) (hlength : pairs.length < UInt64.size)
    (hroom : reserve (count.toNat + 1) 8 = .ok ()) :
    ∃ t, layOut count arranged = .ok t ∧
      t.Holds ((List.range count.toNat).map (valuesOf pairs)) := by
  refine ⟨_, ?_, holds_countP h hrows⟩
  have hsize := toNat_succ_of_reserve hroom
  have hzero : Array.replicate (count.toNat + 1) 0 =
      (Array.range (count.toNat + 1)).map fun _ => (0 : UInt64) := by
    refine Array.ext (by simp) fun i _ _ => ?_
    simp
  have hcounted : countOut (Array.replicate (count.toNat + 1) 0) pairs =
      .ok ((Array.range (count.toNat + 1)).map fun i =>
        .ofNat (pairs.countP fun pair => pair.1 + 1 = i)) := by
    rw [hzero, countOut_map fun pair hpair => Nat.succ_lt_succ (hrows pair hpair)]
    simp only [UInt64.zero_add]
  have hoffsets : ((Array.range (count.toNat + 1)).map fun i =>
      UInt64.ofNat (pairs.countP fun pair => pair.1 < i)).map UInt64.toNat =
        (Array.range (count.toNat + 1)).map fun i => pairs.countP fun pair => pair.1 < i := by
    rw [Array.map_map]
    refine Array.map_congr_left fun i _ => ?_
    exact UInt64.toNat_ofNat_of_lt' (List.countP_le_length.trans_lt hlength)
  rw [layOut, hpairs, hsize, hroom, hcounted]
  show addUp _ _ >>= _ = _
  rw [addUp_all h, ← hoffsets]
  rfl

/-! ## Pairs in order -/

section

variable [Ord α]

/-- The order of pairs: by their row, then by their value. -/
def Precedes (p q : Nat × α) : Prop := p.1 < q.1 ∨ p.1 = q.1 ∧ (compare p.2 q.2).isLE = true

instance (p q : Nat × α) : Decidable (Precedes p q) := inferInstanceAs (Decidable (_ ∨ _ ∧ _))

/-- The pairs of the rows below `count` in order, each as often as it was given. -/
structure Arranges (count : Nat) (pairs arranged : List (Nat × α)) : Prop where
  perm : arranged.Perm (pairs.filter fun pair => pair.1 < count)
  ordered : arranged.Pairwise Precedes

theorem Precedes.row_le {p q : Nat × α} (h : Precedes p q) : p.1 ≤ q.1 := by
  rcases h with hlt | ⟨heq, -⟩
  · exact hlt.le
  · exact heq.le

theorem Precedes.isLE {p q : Nat × α} (h : Precedes p q) (hrow : p.1 = q.1) :
    (compare p.2 q.2).isLE = true := by
  rcases h with hlt | ⟨-, hle⟩
  · exact absurd hrow hlt.ne
  · exact hle

variable {count : Nat} {pairs arranged : List (Nat × α)}

theorem Arranges.mem_dedup [DecidableEq α] (h : Arranges count pairs arranged) {pair : Nat × α} :
    pair ∈ arranged.dedup ↔ pair.1 < count ∧ pair ∈ pairs := by
  rw [List.mem_dedup, h.perm.mem_iff, List.mem_filter, decide_eq_true_iff, and_comm]

theorem Arranges.byRow [DecidableEq α] (h : Arranges count pairs arranged) :
    ByRow arranged.dedup :=
  (h.ordered.sublist (List.dedup_sublist _)).imp Precedes.row_le

theorem Arranges.increasing [DecidableEq α] [Std.LawfulEqOrd α]
    (h : Arranges count pairs arranged) (r : Nat) :
    (valuesOf arranged.dedup r).Pairwise fun a b => compare a b = .lt := by
  have hdistinct := (h.ordered.sublist (List.dedup_sublist _)).and arranged.nodup_dedup
  refine List.pairwise_map.mpr ((hdistinct.filter _).imp_of_mem fun {p q} hp hq hpq => ?_)
  have hrow : p.1 = q.1 := by
    have hpr := of_decide_eq_true (List.mem_filter.mp hp).2
    have hqr := of_decide_eq_true (List.mem_filter.mp hq).2
    rw [hpr, hqr]
  rcases Ordering.isLE_iff_eq_lt_or_eq_eq.mp (hpq.1.isLE hrow) with hlt | heq
  · exact hlt
  · exact absurd (Prod.ext hrow (Std.LawfulEqOrd.eq_of_compare heq)) hpq.2

variable [Std.TransOrd α]

instance : IsTrans (Nat × α) Precedes where
  trans p q r := by
    rintro (hlt | ⟨heq, hle⟩) (hlt' | ⟨heq', hle'⟩)
    · exact Or.inl (hlt.trans hlt')
    · exact Or.inl (heq' ▸ hlt)
    · exact Or.inl (heq ▸ hlt')
    · exact Or.inr ⟨heq.trans heq', Std.TransOrd.isLE_trans hle hle'⟩

instance : Std.Total (Precedes : Nat × α → Nat × α → Prop) where
  total p q := by
    rcases lt_trichotomy p.1 q.1 with hlt | heq | hgt
    · exact Or.inl (Or.inl hlt)
    · cases hcompare : compare p.2 q.2 with
      | lt => exact Or.inl (Or.inr ⟨heq, by rw [hcompare]; rfl⟩)
      | eq => exact Or.inl (Or.inr ⟨heq, by rw [hcompare]; rfl⟩)
      | gt =>
          have hlt : compare q.2 p.2 = .lt := Std.OrientedCmp.gt_iff_lt.mp hcompare
          exact Or.inr (Or.inr ⟨heq.symm, by rw [hlt]; rfl⟩)
    · exact Or.inr (Or.inl hgt)

/-- Pairs can be put in order. -/
theorem exists_arranges (count : Nat) (pairs : List (Nat × α)) :
    ∃ arranged, Arranges count pairs arranged :=
  ⟨(pairs.filter fun pair => pair.1 < count).mergeSort (Precedes · ·),
    List.mergeSort_perm _ _, List.pairwise_mergeSort' Precedes _⟩

variable [Std.LawfulEqOrd α]

instance : Std.Antisymm (Precedes : Nat × α → Nat × α → Prop) where
  antisymm p q h h' := by
    have hrow : p.1 = q.1 := Nat.le_antisymm h.row_le h'.row_le
    have hvalue := Std.OrientedCmp.isLE_antisymm (h.isLE hrow) (h'.isLE hrow.symm)
    exact Prod.ext hrow (Std.LawfulEqOrd.eq_of_compare hvalue)

/-- Counting out the pairs in order makes the table that is made with buckets, if there is room
for its offsets. -/
theorem layOut_of_arranges [DecidableEq α] {countWord : UInt64} (hcount : countWord.toNat = count)
    (h : Arranges count pairs arranged) (hlength : arranged.length < UInt64.size)
    (hroom : reserve (count + 1) 8 = .ok ()) :
    layOut countWord arranged = .ok (ofPairs count pairs) := by
  subst hcount
  have hshort := (List.dedup_sublist arranged).length_le.trans_lt hlength
  obtain ⟨t, ht, hholds⟩ := layOut_eq_ok h.ordered.destutter_eq_dedup h.byRow
    (fun pair hpair => (h.mem_dedup.mp hpair).1) hshort hroom
  have hrows : (List.range countWord.toNat).map (valuesOf arranged.dedup) =
      (List.range countWord.toNat).map (ofPairs countWord.toNat pairs).row := by
    refine List.map_congr_left fun r _ => ?_
    refine ext_of_increasing (h.increasing r) (pairwise_row_ofPairs _ pairs r) fun v => ?_
    rw [mem_row_ofPairs, valuesOf, List.mem_map]
    constructor
    · rintro ⟨pair, hpair, rfl⟩
      obtain ⟨hin, hrow⟩ := List.mem_filter.mp hpair
      rw [← of_decide_eq_true hrow]
      exact h.mem_dedup.mp hin
    · intro hin
      have hpair : (r, v) ∈ arranged.dedup := h.mem_dedup.mpr hin
      exact ⟨(r, v), List.mem_filter.mpr ⟨hpair, decide_eq_true rfl⟩, rfl⟩
  rw [hrows] at hholds
  rw [ht, eq_of_holds hholds (holds_ofPairs _ pairs)]

end

/-! ## Cutting -/

/-- Offsets that cut the values from the first to the last. -/
structure Cuts (t : Rows α) : Prop where
  first : t.offsets[0]? = some 0
  ascending : t.offsets.toList.Pairwise (· ≤ ·)
  last : t.offsets[t.rowCount]? = some t.valueCount

/-- The values of a row, cut out of all values. There is no result if the cut does not lie within
them. -/
def slice? (t : Rows α) (r : Nat) : Option (List α) :=
  match t.offsets[r]?, t.offsets[r + 1]? with
  | some start, some stop =>
      if start ≤ stop ∧ stop ≤ t.values.size then some (t.values.extract start stop).toList
      else none
  | _, _ => some []

section

variable {t : Rows α} {rows : List (List α)}

theorem length_flatten_take_le {i j : Nat} (h : i ≤ j) (rows : List (List α)) :
    (rows.take i).flatten.length ≤ (rows.take j).flatten.length :=
  (List.take_prefix_take_left h).flatten.length_le

theorem cuts_of_holds (h : t.Holds rows) : t.Cuts where
  first := h.offset 0 (Nat.zero_le _)
  ascending := by
    refine List.pairwise_iff_getElem.mpr fun i j hi hj hlt => ?_
    have hsize := h.size
    rw [Array.length_toList] at hi hj
    have hfirst := h.offset i (by omega)
    have hsecond := h.offset j (by omega)
    rw [Array.getElem?_eq_getElem hi, Option.some_inj] at hfirst
    rw [Array.getElem?_eq_getElem hj, Option.some_inj] at hsecond
    rw [Array.getElem_toList, Array.getElem_toList, hfirst, hsecond]
    exact length_flatten_take_le hlt.le rows
  last := by
    rw [rowCount_of_holds h, h.offset _ le_rfl, List.take_length, ← h.values, Array.length_toList,
      valueCount]

/-- No row is cut beyond the values. -/
theorem slice?_of_holds (h : t.Holds rows) (r : Nat) : t.slice? r = some (t.row r) := by
  rw [slice?, row]
  by_cases hr : r < rows.length
  · have hstop := length_flatten_take_le hr rows
    rw [List.take_length, ← h.values, Array.length_toList] at hstop
    rw [h.offset r hr.le, h.offset (r + 1) hr]
    exact if_pos ⟨length_flatten_take_le (Nat.le_succ r) rows, hstop⟩
  · have hnone : t.offsets[r + 1]? = none := by
      rw [Array.getElem?_eq_none_iff, h.size]
      omega
    rw [hnone]
    cases t.offsets[r]? <;> rfl

end

/-! ## What a table holds -/

/-- A table that holds the values paired with each of its rows, in order and once. -/
structure Collects [Ord α] [DecidableEq α] (t : Rows α) (count : Nat) (pairs : List (Nat × α)) :
    Prop where
  cuts : t.Cuts
  rowCount : t.rowCount = count
  slice : ∀ r, t.slice? r = some (t.row r)
  increasing : ∀ r, (t.row r).Pairwise fun a b => compare a b = .lt
  mem_row : ∀ r < count, ∀ v, v ∈ t.row r ↔ (r, v) ∈ pairs
  row_of_le : ∀ r, count ≤ r → t.row r = []
  valueCount : t.valueCount = (pairs.filter fun pair => pair.1 < count).dedup.length

/-- A table that holds the given rows, each as it is. -/
structure Keeps (t : Rows α) (rows : List (List α)) : Prop where
  cuts : t.Cuts
  rowCount : t.rowCount = rows.length
  slice : ∀ r, t.slice? r = some (t.row r)
  row : ∀ r (h : r < rows.length), t.row r = rows[r]

theorem keeps_ofRows (rows : List (List α)) : (ofRows rows).Keeps rows where
  cuts := cuts_of_holds (holds_ofRows rows)
  rowCount := rowCount_ofRows rows
  slice := slice?_of_holds (holds_ofRows rows)
  row := by
    intro r hr
    rw [row_ofRows, List.getElem?_eq_getElem hr, Option.getD_some]

variable [Ord α] [Std.TransOrd α] [Std.LawfulEqOrd α]

theorem collects_ofPairs [DecidableEq α] (count : Nat) (pairs : List (Nat × α)) :
    (ofPairs count pairs).Collects count pairs where
  cuts := cuts_of_holds (holds_ofPairs count pairs)
  rowCount := rowCount_ofPairs count pairs
  slice := slice?_of_holds (holds_ofPairs count pairs)
  increasing := pairwise_row_ofPairs count pairs
  mem_row := by
    intro r hr v
    rw [mem_row_ofPairs, and_iff_right hr]
  row_of_le := by
    intro r hr
    refine List.eq_nil_iff_forall_not_mem.mpr fun v hv => ?_
    exact Nat.not_lt.mpr hr (mem_row_ofPairs.mp hv).1
  valueCount := valueCount_ofPairs count pairs

theorem ofPairs_eq_iff {count : Nat} {pairs others : List (Nat × α)} :
    ofPairs count others = ofPairs count pairs ↔
      ∀ pair, pair.1 < count → (pair ∈ others ↔ pair ∈ pairs) := by
  refine ⟨fun h pair hpair => ?_, ofPairs_congr⟩
  have hrow : ∀ list : List (Nat × α),
      pair ∈ list ↔ pair.2 ∈ (ofPairs count list).row pair.1 := fun list => by
    rw [mem_row_ofPairs, and_iff_right hpair]
  rw [hrow, hrow, h]

/-- A table holds what it was made from. Made from pairs in any order, it is the table that is
counted out of the pairs once they are in order, whichever way they were sorted, and pairs of the
same rows with the same values make the same table. -/
theorem tables_exact [DecidableEq α] (count : Nat) (pairs : List (Nat × α)) :
    (ofPairs count pairs).Collects count pairs ∧
      (∃ arranged, Arranges count pairs arranged) ∧
      (∀ (countWord : UInt64) (arranged : List (Nat × α)), countWord.toNat = count →
        Arranges count pairs arranged → arranged.length < UInt64.size →
          reserve (count + 1) 8 = .ok () →
            layOut countWord arranged = .ok (ofPairs count pairs)) ∧
      (∀ others, ofPairs count others = ofPairs count pairs ↔
        ∀ pair, pair.1 < count → (pair ∈ others ↔ pair ∈ pairs)) ∧
      ∀ rows : List (List α), (ofRows rows).Keeps rows :=
  ⟨collects_ofPairs count pairs, exists_arranges count pairs,
    fun _ _ => layOut_of_arranges, fun _ => ofPairs_eq_iff, keeps_ofRows⟩

/-- Pairs of which one is repeated and one is of an unknown row; rows 1 and 3 get nothing. -/
def gappedPairs : List (Nat × LabelId) := [(2, ⟨9⟩), (0, ⟨3⟩), (7, ⟨1⟩), (0, ⟨1⟩), (0, ⟨3⟩)]

/-- The offsets of empty rows are those of the next row, and the last row can be empty too. -/
theorem tables_exact_gaps :
    Arranges 4 gappedPairs [(0, ⟨1⟩), (0, ⟨3⟩), (0, ⟨3⟩), (2, ⟨9⟩)] ∧
      ofPairs 4 gappedPairs = ⟨#[0, 2, 2, 3, 3], #[⟨1⟩, ⟨3⟩, ⟨9⟩]⟩ ∧
      (ofPairs 4 gappedPairs).Collects 4 gappedPairs ∧
      ofPairs 4 gappedPairs.tail ≠ ofPairs 4 gappedPairs ∧
      (ofRows [[⟨3⟩, ⟨1⟩], [], [(⟨3⟩ : LabelId)]]).row 0 = [⟨3⟩, ⟨1⟩] := by
  obtain ⟨hcollects, -, hlaid, hsame, hkeeps⟩ := tables_exact 4 gappedPairs
  have harranged : Arranges 4 gappedPairs [(0, ⟨1⟩), (0, ⟨3⟩), (0, ⟨3⟩), (2, ⟨9⟩)] :=
    ⟨by decide +kernel, by decide +kernel⟩
  have hcounted : layOut 4 [(0, (⟨1⟩ : LabelId)), (0, ⟨3⟩), (0, ⟨3⟩), (2, ⟨9⟩)] =
      .ok ⟨#[0, 2, 2, 3, 3], #[⟨1⟩, ⟨3⟩, ⟨9⟩]⟩ := by decide +kernel
  refine ⟨harranged, ?_, hcollects, ?_, (hkeeps _).row 0 (by decide)⟩
  · rw [hlaid 4 _ rfl harranged (by decide) (by decide +kernel)] at hcounted
    exact Except.ok.inj hcounted
  · rw [Ne, hsame]
    intro h
    exact absurd ((h (2, ⟨9⟩) (by decide)).mpr (by decide +kernel)) (by decide +kernel)

end Rows

end Hetnet
