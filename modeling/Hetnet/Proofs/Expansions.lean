import Mathlib
import Hetnet.Proofs.KeyGrammar

/-!
# Every choice of labels once, in the order of an odometer

A trace stands for one key per choice of a label at every node. The choices can be told by
positions in the label lists, and then they are the readings of an odometer whose wheels have
as many places as the lists have labels: `Odometer.readings` lists them in
lexicographic order, and `Odometer.run_readings` says that the wheels come to all of them by
turning alone, from all zeros until no turn is left. A turn that carries too far or not far
enough would break that run, for it pins down every reading from the one before it.

The expansion of a trace goes through the same readings (`Trace.forall₂_choices`), so each
choice is written once. Two choices write the same key only if a list holds the same
label twice, because a key determines its labels.

The expansion is as long as the product of the lengths of the lists. A trace counts this product
in a word, so the two agree as long as it fits (`Trace.toNat_combinations_eq_iff`).
-/

namespace Hetnet

/-! ## Odometers

A reading gives a position on every wheel, and the last wheel turns fastest. -/

namespace Odometer

/-- One turn. The last wheel goes on; a wheel that has been at its last position goes back to
the first one, and the wheel before it goes on instead. -/
def turn : List Nat → List Nat → Option (List Nat)
  | size :: sizes, position :: reading =>
      match turn sizes reading with
      | some next => some (position :: next)
      | none =>
          if position + 1 < size then some ((position + 1) :: sizes.map fun _ => 0) else none
  | _, _ => none

/-- The readings that follow from one by turning until no turn is left. -/
inductive Run (sizes : List Nat) : List Nat → List (List Nat) → Prop
  | stop {reading : List Nat} : turn sizes reading = none → Run sizes reading [reading]
  | go {reading next : List Nat} {rest : List (List Nat)} :
      turn sizes reading = some next → Run sizes next rest → Run sizes reading (reading :: rest)

/-- All readings in order. -/
def readings : List Nat → List (List Nat)
  | [] => [[]]
  | size :: sizes => (List.range size).flatMap fun position =>
      (readings sizes).map (position :: ·)

theorem mem_readings {sizes reading : List Nat} :
    reading ∈ readings sizes ↔ List.Forall₂ (· < ·) reading sizes := by
  induction sizes generalizing reading with
  | nil => simp [readings]
  | cons size sizes ih =>
      simp only [readings, List.mem_flatMap, List.mem_range, List.mem_map, ih,
        List.forall₂_cons_right_iff]
      grind

theorem length_readings (sizes : List Nat) : (readings sizes).length = sizes.prod := by
  induction sizes with
  | nil => rfl
  | cons size sizes ih => simp [readings, List.length_flatMap, ih]

theorem pairwise_readings (sizes : List Nat) : (readings sizes).Pairwise (List.Lex (· < ·)) := by
  induction sizes with
  | nil => exact List.pairwise_singleton _ _
  | cons size sizes ih =>
      refine List.pairwise_flatMap.mpr ⟨fun position _ => ?_, ?_⟩
      · exact List.pairwise_map.mpr (ih.imp .cons)
      · refine List.pairwise_lt_range.imp fun {low high} hlt => ?_
        intro reading hreading other hother
        obtain ⟨_, -, rfl⟩ := List.mem_map.mp hreading
        obtain ⟨_, -, rfl⟩ := List.mem_map.mp hother
        exact .rel hlt

theorem nodup_readings (sizes : List Nat) : (readings sizes).Nodup := by
  refine (pairwise_readings sizes).imp ?_
  rintro reading _ hlt rfl
  exact List.lex_irrefl Nat.lt_irrefl reading hlt

variable {size position : Nat} {sizes reading : List Nat} {list : List (List Nat)}

/-- While a wheel rests the wheels behind it run as they would without it. -/
theorem Run.cons_of_le (h : Run sizes reading list) (hlast : size ≤ position + 1) :
    Run (size :: sizes) (position :: reading) (list.map (position :: ·)) := by
  induction h with
  | stop hstop => exact .stop (by simp [turn, hstop, Nat.not_lt.mpr hlast])
  | go hturn _ ih => exact .go (by simp [turn, hturn]) ih

/-- When the wheels behind a wheel have run, it goes on. -/
theorem Run.cons_append (h : Run sizes reading list) (hnext : position + 1 < size)
    {more : List (List Nat)}
    (hmore : Run (size :: sizes) ((position + 1) :: sizes.map fun _ => 0) more) :
    Run (size :: sizes) (position :: reading) (list.map (position :: ·) ++ more) := by
  induction h with
  | stop hstop => exact .go (by simp [turn, hstop, hnext]) hmore
  | go hturn _ ih => exact .go (by simp [turn, hturn]) ih

/-- An odometer of wheels that all have a position runs through all readings. -/
theorem run_readings {sizes : List Nat} (h : ∀ size ∈ sizes, 0 < size) :
    Run sizes (sizes.map fun _ => 0) (readings sizes) := by
  induction sizes with
  | nil => exact .stop rfl
  | cons size sizes ih =>
      have hbehind := ih fun other hother => h other (List.mem_cons_of_mem _ hother)
      -- The first wheel comes to one position after the other; `left` of them are to come.
      have hwheel : ∀ left position, position + left + 1 = size →
          Run (size :: sizes) (position :: sizes.map fun _ => 0)
            ((List.range' position (left + 1)).flatMap fun i => (readings sizes).map (i :: ·)) := by
        intro left
        induction left with
        | zero =>
            intro position hsize
            simpa using hbehind.cons_of_le (by omega)
        | succ left ihLeft =>
            intro position hsize
            rw [List.range'_succ, List.flatMap_cons]
            exact hbehind.cons_append (by omega) (ihLeft (position + 1) (by omega))
      obtain ⟨left, rfl⟩ := Nat.exists_eq_add_of_lt (h size List.mem_cons_self)
      rw [readings, List.range_eq_range']
      simpa using hwheel left 0 (by omega)

theorem run_of_lengths {α : Type} {columns : List (List α)} (h : [] ∉ columns) :
    Run (columns.map List.length) (columns.map fun _ => 0)
      (readings (columns.map List.length)) := by
  have hpos : ∀ size ∈ columns.map List.length, 0 < size := by
    intro size hsize
    obtain ⟨column, hcolumn, rfl⟩ := List.mem_map.mp hsize
    exact List.length_pos_of_ne_nil fun hnil => h (hnil ▸ hcolumn)
  simpa only [List.map_map, Function.comp_def] using run_readings hpos

end Odometer

/-! ## The keys of a trace -/

namespace Trace

/-- The trace of a start node with the given labels that is extended by steps in turn. -/
def ofPushes (start : List LabelId) (steps : List (EdgeTypeId × List LabelId)) : Trace :=
  steps.foldl (fun trace step => trace.push step.1 step.2) { start }

/-- The key that is written when the labels are those at the positions of a reading. -/
def Writes (columns : List (List LabelId)) (edgeTypes : List EdgeTypeId) (reading : List Nat)
    (K : MetaPath) : Prop :=
  ∃ labels : List LabelId,
    List.zipWith (fun column position => column[position]?) columns reading = labels.map some ∧
      MetaPath.ofParts labels edgeTypes = .ok K

theorem steps_foldl_push (trace : Trace) (steps : List (EdgeTypeId × List LabelId)) :
    steps.foldl (fun trace step => trace.push step.1 step.2) trace =
      { trace with steps := steps.reverse ++ trace.steps } := by
  induction steps generalizing trace with
  | nil => rfl
  | cons step rest ih => rw [List.foldl_cons, ih, push]; simp

theorem ofPushes_eq (start : List LabelId) (steps : List (EdgeTypeId × List LabelId)) :
    ofPushes start steps = { start, steps := steps.reverse } := by
  rw [ofPushes, steps_foldl_push, List.append_nil]

theorem forall₂_positions (labels : List LabelId) :
    List.Forall₂ (fun position label => labels[position]? = some label)
      (List.range labels.length) labels :=
  List.forall₂_iff_get.mpr ⟨List.length_range, by simp⟩

/-- The choices of labels for the steps are made at the readings, in order. -/
theorem forall₂_choices (steps : List (EdgeTypeId × List LabelId)) :
    List.Forall₂ (fun reading chosen =>
        List.zipWith (fun column position => column[position]?) (steps.map Prod.snd) reading =
          (chosen.map Prod.snd).map some ∧
        chosen.map Prod.fst = steps.map Prod.fst)
      (Odometer.readings (steps.map fun step => step.2.length)) (choices steps) := by
  induction steps with
  | nil => exact .cons ⟨rfl, rfl⟩ .nil
  | cons step rest ih =>
      refine List.rel_flatMap (forall₂_positions step.2) fun position label hlabel => ?_
      rw [List.forall₂_map_left_iff, List.forall₂_map_right_iff]
      refine ih.imp fun reading chosen h => ?_
      simp [hlabel, h.1, h.2]

theorem forall₂_expand (start : List LabelId) (steps : List (EdgeTypeId × List LabelId)) :
    List.Forall₂ (Writes (start :: steps.map Prod.snd) (steps.map Prod.fst))
      (Odometer.readings ((start :: steps.map Prod.snd).map List.length))
      (ofPushes start steps).expand := by
  rw [ofPushes_eq, expand, List.reverse_reverse, List.map_cons, List.map_map]
  refine List.rel_flatMap (forall₂_positions start) fun position label hlabel => ?_
  rw [List.forall₂_map_left_iff, List.forall₂_map_right_iff]
  refine (forall₂_choices steps).imp fun reading chosen h => ⟨label :: chosen.map Prod.snd, ?_, ?_⟩
  · simp [hlabel, h.1]
  · rw [← h.2]
    exact MetaPath.ofParts_steps label chosen

/-- In lists that hold no label twice different readings write different keys. -/
theorem Writes.reading_eq {columns : List (List LabelId)} {edgeTypes : List EdgeTypeId}
    {reading other : List Nat} {K : MetaPath} (h : Writes columns edgeTypes reading K)
    (hother : Writes columns edgeTypes other K) (hnodup : ∀ column ∈ columns, column.Nodup)
    (hreading : List.Forall₂ (· < ·) reading (columns.map List.length))
    (hbound : List.Forall₂ (· < ·) other (columns.map List.length)) : reading = other := by
  obtain ⟨labels, hlabels, hK⟩ := h
  obtain ⟨labels', hlabels', hK'⟩ := hother
  -- The key shows which labels were taken.
  have hsame : labels = labels' :=
    (MetaPath.parts_of_ofParts hK).1.symm.trans (MetaPath.parts_of_ofParts hK').1
  have hpicks := hlabels.trans (hsame ▸ hlabels'.symm)
  clear hlabels hlabels' hK hK' hsame
  induction columns generalizing reading other with
  | nil => cases hreading; cases hbound; rfl
  | cons column columns ih =>
      cases hreading with
      | cons hposition hreading =>
          cases hbound with
          | cons hposition' hbound =>
              obtain ⟨hcolumn, hcolumns⟩ := List.forall_mem_cons.mp hnodup
              obtain ⟨hpick, hrest⟩ := List.cons_eq_cons.mp hpicks
              rw [(List.getElem?_inj hposition hcolumn).mp hpick, ih hcolumns hreading hbound hrest]

theorem nodup_of_writes {columns : List (List LabelId)} {edgeTypes : List EdgeTypeId}
    {keys : List MetaPath}
    (hwrites : List.Forall₂ (Writes columns edgeTypes)
      (Odometer.readings (columns.map List.length)) keys)
    (hnodup : ∀ column ∈ columns, column.Nodup) : keys.Nodup := by
  obtain ⟨hsize, hget⟩ := List.forall₂_iff_get.mp hwrites
  refine List.nodup_iff_injective_get.mpr fun i j heq => Fin.ext ?_
  have hi := hget i (by omega) i.2
  have hj := hget j (by omega) j.2
  rw [Fin.eta, heq] at hi
  have hsame := hi.reading_eq hj hnodup (Odometer.mem_readings.mp (List.get_mem _ _))
    (Odometer.mem_readings.mp (List.get_mem _ _))
  exact Fin.mk.inj (List.nodup_iff_injective_get.mp (Odometer.nodup_readings _) hsame)

/-- The combinations of a trace are all counted exactly if their number fits in a word. -/
theorem toNat_combinations_eq_iff (trace : Trace) :
    trace.combinations.toNat = trace.expand.length ↔ trace.expand.length < UInt64.size := by
  rw [combinations_eq, UInt64.toNat_ofNat']
  exact ⟨fun h => h ▸ Nat.mod_lt _ (by decide), Nat.mod_eq_of_lt⟩

/-- An expansion that writes the key of every reading once, in the order of the readings. -/
structure Expands (columns : List (List LabelId)) (edgeTypes : List EdgeTypeId)
    (readings : List (List Nat)) (keys : List MetaPath) : Prop where
  mem_iff : ∀ reading, reading ∈ readings ↔
    List.Forall₂ (fun position column => position < column.length) reading columns
  ordered : readings.Pairwise (List.Lex (· < ·))
  run : [] ∉ columns →
    Odometer.Run (columns.map List.length) (columns.map fun _ => 0) readings
  writes : List.Forall₂ (Writes columns edgeTypes) readings keys
  length_eq : keys.length = (columns.map List.length).prod
  eq_nil : [] ∈ columns → keys = []
  nodup : (∀ column ∈ columns, column.Nodup) → keys.Nodup

/-- Sixty-four nodes with two labels each have more combinations than a word can count, and
none are counted. -/
example : (ofPushes [⟨0⟩, ⟨1⟩] (List.replicate 63 (⟨0⟩, [⟨0⟩, ⟨1⟩]))).combinations = 0 := by
  decide +kernel

end Trace

end Hetnet
