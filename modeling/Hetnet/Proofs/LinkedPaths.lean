import Mathlib
import Hetnet.Proofs.KeyGrammar

/-!
# The meta-paths of a schema, from either end

A schema lists the keys of the label sequences along its links. The listing goes forward only:
it starts at every label of the vocabulary and follows links. Read as two lists of ids, the
labels and the edge types between them, a path has no such direction, and it is
listed if its parts are allowed (`Schema.AllowsParts`).

Every link is recorded at both of its labels. Recording and merging keep it so, a refused
recording included, for whatever vocabularies the merged schemas have
(`Schema.Reachable.symmetric`). In a symmetric schema the reversed parts of an allowed path are
allowed: the links are the same ones taken backwards, and the label at which the
reversed path starts has a link, so it is in the vocabulary.
-/

namespace Hetnet

namespace Schema

variable {s : Schema} {mode : LengthMode} {maxLength : Nat} {labels : List LabelId}
  {edgeTypes : List EdgeTypeId}

/-! ## Parts of a path -/

/-- The edge type at each position links the label before it with the label after it. -/
def Linked (s : Schema) (labels : List LabelId) (edgeTypes : List EdgeTypeId) : Prop :=
  ∀ j a b edgeType, labels[j]? = some a → labels[j + 1]? = some b →
    edgeTypes[j]? = some edgeType → s.contains a b edgeType = true

/-- The labels and edge types of a path along links, from a label of the vocabulary and of an
accepted length. -/
structure AllowsParts (s : Schema) (mode : LengthMode) (maxLength : Nat) (labels : List LabelId)
    (edgeTypes : List EdgeTypeId) : Prop where
  start : ∀ label, labels.head? = some label → label.index < s.labelCount
  accepted : mode.accepts edgeTypes.length maxLength = true
  linked : s.Linked labels edgeTypes

theorem linked_cons {start label : LabelId} {edgeType : EdgeTypeId} :
    s.Linked (start :: label :: labels) (edgeType :: edgeTypes) ↔
      s.contains start label edgeType = true ∧ s.Linked (label :: labels) edgeTypes := by
  constructor
  · intro h
    exact ⟨h 0 start label edgeType rfl rfl rfl, fun j => h (j + 1)⟩
  · intro h j a b type ha hb htype
    cases j with
    | zero =>
        cases ha
        cases hb
        cases htype
        exact h.1
    | succ j => exact h.2 j a b type ha hb htype

theorem allows_iff_linked {start : LabelId} {steps : List (EdgeTypeId × LabelId)} :
    s.Allows start steps ↔ s.Linked (start :: steps.map Prod.snd) (steps.map Prod.fst) := by
  induction steps generalizing start with
  | nil => exact iff_of_true trivial fun j a b edgeType _ _ htype => by cases htype
  | cons step rest ih =>
      rw [List.map_cons, List.map_cons, linked_cons, ← ih]
      rfl

/-- A key is listed if the parts of which it is made are allowed. -/
theorem mem_metaPaths_iff_allowsParts {paths : MetaPathSet}
    (h : s.metaPaths maxLength mode = .ok paths) {K : MetaPath}
    (hK : MetaPath.ofParts labels edgeTypes = .ok K) :
    K ∈ paths ↔ s.AllowsParts mode maxLength labels edgeTypes := by
  rw [mem_metaPaths_iff h]
  constructor
  · intro hpath
    obtain ⟨start, steps, hstart, haccepts, hallows, rfl⟩ := hpath
    obtain ⟨rfl, rfl⟩ := MetaPath.parts_of_ofParts hK
    rw [MetaPath.labels_ofSteps, MetaPath.edgeTypes_ofSteps]
    refine ⟨fun label hlabel => ?_, ?_, allows_iff_linked.mp hallows⟩
    · cases hlabel
      exact hstart
    · rw [List.length_map]
      exact haccepts
  · intro hparts
    obtain ⟨start, steps, rfl, rfl, rfl⟩ := MetaPath.exists_steps_of_ofParts hK
    have haccepts := hparts.accepted
    rw [List.length_map] at haccepts
    exact ⟨start, steps, hparts.start start rfl, haccepts, allows_iff_linked.mpr hparts.linked,
      rfl⟩

/-- The listing succeeds, and its keys are those of the parts that the schema allows: labels and
edge types that follow its links, starting in the vocabulary, of an accepted length. -/
theorem metaPaths_exact (s : Schema) (mode : LengthMode) {maxLength : Nat}
    (hlength : 1 ≤ maxLength) (hroom : reserve (maxLength + 1) idBytes = .ok ()) :
    ∃ paths, s.metaPaths maxLength mode = .ok paths ∧ ∀ K, K ∈ paths ↔
      ∃ labels edgeTypes, MetaPath.ofParts labels edgeTypes = .ok K ∧
        s.AllowsParts mode maxLength labels edgeTypes := by
  obtain ⟨paths, hpaths, hmem⟩ :=
    s.metaPaths_eq_ok mode (Nat.one_le_iff_ne_zero.mp hlength) hroom
  refine ⟨paths, hpaths, fun K => ?_⟩
  constructor
  · intro hK
    obtain ⟨start, steps, -, -, -, rfl⟩ := (hmem K).mp hK
    have hparts := MetaPath.ofParts_steps start steps
    exact ⟨_, _, hparts, (mem_metaPaths_iff_allowsParts hpaths hparts).mp hK⟩
  · intro hK
    obtain ⟨labels, edgeTypes, hparts, hallows⟩ := hK
    exact (mem_metaPaths_iff_allowsParts hpaths hparts).mpr hallows

/-- A path there and back along the one link of a schema, and a path that would need a link to
the label in between. -/
theorem metaPaths_exact_twin :
    ∃ paths, twin.metaPaths 2 .upTo = .ok paths ∧ (⟨"0|0|2|0|0"⟩ : MetaPath) ∈ paths ∧
      (⟨"0|0|1"⟩ : MetaPath) ∉ paths := by
  obtain ⟨paths, hpaths, hmem⟩ := metaPaths_exact twin .upTo (show 1 ≤ 2 by decide) rfl
  have hthere : twin.contains ⟨0⟩ ⟨2⟩ ⟨0⟩ = true := by decide +kernel
  have hback : twin.contains ⟨2⟩ ⟨0⟩ ⟨0⟩ = true := by decide +kernel
  have hbetween : twin.contains ⟨0⟩ ⟨1⟩ ⟨0⟩ = false := by decide +kernel
  refine ⟨paths, hpaths, (hmem _).mpr ⟨[⟨0⟩, ⟨2⟩, ⟨0⟩], [⟨0⟩, ⟨0⟩], rfl, ?_⟩, fun hlisted => ?_⟩
  · refine ⟨fun label hlabel => ?_, rfl, ?_⟩
    · cases hlabel
      decide
    · have hallowed : twin.Allows ⟨0⟩ [(⟨0⟩, ⟨2⟩), (⟨0⟩, ⟨0⟩)] := ⟨hthere, hback, trivial⟩
      exact allows_iff_linked.mp hallowed
  · obtain ⟨labels, edgeTypes, hparts, hallows⟩ := (hmem _).mp hlisted
    have hlink : MetaPath.ofParts [⟨0⟩, ⟨1⟩] [⟨0⟩] = .ok ⟨"0|0|1"⟩ := rfl
    obtain ⟨rfl, rfl⟩ := MetaPath.parts_of_ofParts hparts
    obtain ⟨hlabels, htypes⟩ := MetaPath.parts_of_ofParts hlink
    rw [hlabels, htypes] at hallows
    have hstep := hallows.linked 0 ⟨0⟩ ⟨1⟩ ⟨0⟩ rfl rfl rfl
    rw [hbetween] at hstep
    cases hstep

/-! ## Reversed parts -/

/-- Every link can be taken backwards. -/
def Symmetric (s : Schema) : Prop :=
  ∀ a b edgeType, s.contains a b edgeType = true → s.contains b a edgeType = true

theorem index_lt_of_contains {a b : LabelId} {edgeType : EdgeTypeId}
    (h : s.contains a b edgeType = true) : a.index < s.labelCount := by
  by_contra hpast
  rw [contains_iff_mem, row_of_labelCount_le (Nat.le_of_not_lt hpast)] at h
  exact Std.ExtTreeSet.not_mem_empty h

theorem Linked.reverse (hs : s.Symmetric) (hlength : labels.length = edgeTypes.length + 1)
    (h : s.Linked labels edgeTypes) : s.Linked labels.reverse edgeTypes.reverse := by
  intro j a b edgeType ha hb htype
  have hj : j < edgeTypes.length := by
    rw [← List.length_reverse]
    exact (List.getElem?_eq_some_iff.mp htype).1
  rw [List.getElem?_reverse (by omega)] at ha hb
  rw [List.getElem?_reverse hj] at htype
  -- Counted from the other end, the same edge type stands between the same two labels.
  refine hs b a edgeType (h (edgeTypes.length - 1 - j) b a edgeType ?_ ?_ htype)
  · rw [← hb]
    congr 1
    omega
  · rw [← ha]
    congr 1
    omega

theorem AllowsParts.reverse (hs : s.Symmetric) (hne : maxLength ≠ 0)
    (hlength : labels.length = edgeTypes.length + 1)
    (h : s.AllowsParts mode maxLength labels edgeTypes) :
    s.AllowsParts mode maxLength labels.reverse edgeTypes.reverse := by
  have hlinked := h.linked.reverse hs hlength
  have haccepted : mode.accepts edgeTypes.reverse.length maxLength = true := by
    rw [List.length_reverse]
    exact h.accepted
  refine ⟨fun label hlabel => ?_, haccepted, hlinked⟩
  -- There is at least one link, and the first one starts at this label.
  have hpos : edgeTypes.reverse.length ≠ 0 := fun hzero =>
    LengthMode.not_accepts_zero hne (hzero ▸ haccepted)
  have hlabels : labels.reverse.length = edgeTypes.reverse.length + 1 := by
    rw [List.length_reverse, List.length_reverse, hlength]
  rw [List.head?_eq_getElem?] at hlabel
  exact index_lt_of_contains (hlinked 0 label _ _ hlabel
    (List.getElem?_eq_getElem (by omega)) (List.getElem?_eq_getElem (by omega)))

theorem allowsParts_reverse_iff (hs : s.Symmetric) (hne : maxLength ≠ 0)
    (hlength : labels.length = edgeTypes.length + 1) :
    s.AllowsParts mode maxLength labels.reverse edgeTypes.reverse ↔
      s.AllowsParts mode maxLength labels edgeTypes := by
  constructor
  · intro h
    have hback := h.reverse hs hne (by rw [List.length_reverse, List.length_reverse, hlength])
    rwa [List.reverse_reverse, List.reverse_reverse] at hback
  · exact fun h => h.reverse hs hne hlength

/-! ## Schemas that can be made -/

/-- The schema after a recording, be it refused or not. -/
def recorded (s : Schema) (a b : LabelId) (edgeType : EdgeTypeId) : Schema :=
  match s.record a b edgeType with
  | .ok grown => grown
  | .error _ => s

/-- The schemas that come of an empty one by recordings and by merging what was made so. -/
inductive Reachable : Schema → Prop
  | empty (count : Nat) : Reachable (empty count)
  | recorded {s : Schema} (h : s.Reachable) (a b : LabelId) (edgeType : EdgeTypeId) :
      Reachable (s.recorded a b edgeType)
  | merge {s t : Schema} (hs : s.Reachable) (ht : t.Reachable) : Reachable (s.merge t)

theorem symmetric_empty (count : Nat) : (empty count).Symmetric := fun a b edgeType h =>
  absurd h (not_contains_empty count a b edgeType)

theorem record_eq_error {a b : LabelId} (h : ¬ (a.index < s.labelCount ∧ b.index < s.labelCount))
    (edgeType : EdgeTypeId) : ∃ error, s.record a b edgeType = .error error := by
  cases houtside : s.outside? [a, b] with
  | some label => exact ⟨_, by rw [record, houtside]⟩
  | none =>
      rw [outside?, List.find?_eq_none] at houtside
      refine absurd ⟨?_, ?_⟩ h
      · simpa using houtside a (by simp)
      · simpa using houtside b (by simp)

theorem Symmetric.recorded (hs : s.Symmetric) (a b : LabelId) (edgeType : EdgeTypeId) :
    (s.recorded a b edgeType).Symmetric := by
  rw [Schema.recorded]
  by_cases hin : a.index < s.labelCount ∧ b.index < s.labelCount
  · obtain ⟨grown, hgrown, hadds⟩ := record_eq_ok hin.1 hin.2 edgeType
    rw [hgrown]
    intro x y type h
    rw [hadds.contains_iff] at h ⊢
    rcases h with hold | ⟨rfl, ⟨rfl, rfl⟩ | ⟨rfl, rfl⟩⟩
    · exact Or.inl (hs x y type hold)
    · exact Or.inr ⟨rfl, Or.inr ⟨rfl, rfl⟩⟩
    · exact Or.inr ⟨rfl, Or.inl ⟨rfl, rfl⟩⟩
  · obtain ⟨error, herror⟩ := record_eq_error hin edgeType
    rw [herror]
    exact hs

theorem Symmetric.merge {t : Schema} (hs : s.Symmetric) (ht : t.Symmetric) :
    (s.merge t).Symmetric := by
  intro a b edgeType h
  rw [contains_merge] at h ⊢
  exact h.imp (hs a b edgeType) (ht a b edgeType)

/-- Whatever was recorded, refused and merged, every link can be taken backwards. -/
theorem Reachable.symmetric (h : s.Reachable) : s.Symmetric := by
  induction h with
  | empty count => exact symmetric_empty count
  | recorded _ a b edgeType ih => exact ih.recorded a b edgeType
  | merge _ _ ihs iht => exact ihs.merge iht

/-- The meta-paths of a schema read the same from both ends: a key is listed exactly if the key
of the reversed labels and edge types is. -/
theorem metaPaths_reverse {s : Schema} (hs : s.Reachable) (mode : LengthMode) {maxLength : Nat}
    (hlength : 1 ≤ maxLength) (hroom : reserve (maxLength + 1) idBytes = .ok ()) :
    ∃ paths, s.metaPaths maxLength mode = .ok paths ∧
      ∀ labels edgeTypes K, MetaPath.ofParts labels edgeTypes = .ok K →
        ∃ reversed, MetaPath.ofParts labels.reverse edgeTypes.reverse = .ok reversed ∧
          (K ∈ paths ↔ reversed ∈ paths) := by
  have hne := Nat.one_le_iff_ne_zero.mp hlength
  obtain ⟨paths, hpaths, -⟩ := s.metaPaths_eq_ok mode hne hroom
  refine ⟨paths, hpaths, fun labels edgeTypes K hK => ?_⟩
  have hparts := MetaPath.length_of_ofParts hK
  have hlength' : labels.reverse.length = edgeTypes.reverse.length + 1 := by
    rw [List.length_reverse, List.length_reverse, hparts]
  obtain ⟨start, steps, hlabels, hedgeTypes⟩ := MetaPath.exists_steps_of_length hlength'
  have hreversed : MetaPath.ofParts labels.reverse edgeTypes.reverse =
      .ok (MetaPath.ofSteps start steps) := by
    rw [hlabels, hedgeTypes, MetaPath.ofParts_steps]
  refine ⟨_, hreversed, ?_⟩
  rw [mem_metaPaths_iff_allowsParts hpaths hK, mem_metaPaths_iff_allowsParts hpaths hreversed,
    allowsParts_reverse_iff hs.symmetric hne hparts]

/-- Two links that come of different vocabularies, after a recording that was refused. -/
def mended : Schema :=
  (((empty 2).recorded ⟨0⟩ ⟨1⟩ ⟨5⟩).recorded ⟨0⟩ ⟨4⟩ ⟨5⟩).merge ((empty 3).recorded ⟨1⟩ ⟨2⟩ ⟨6⟩)

/-- A path over both links, from either end. -/
theorem metaPaths_reverse_mended :
    ∃ paths, mended.metaPaths 2 .exact = .ok paths ∧ (⟨"0|5|1|6|2"⟩ : MetaPath) ∈ paths ∧
      (⟨"2|6|1|5|0"⟩ : MetaPath) ∈ paths := by
  have hmade : mended.Reachable :=
    .merge (.recorded (.recorded (.empty 2) _ _ _) _ _ _) (.recorded (.empty 3) _ _ _)
  obtain ⟨paths, hpaths, hreverse⟩ :=
    metaPaths_reverse hmade .exact (show 1 ≤ 2 by decide) rfl
  have hparts : MetaPath.ofParts [⟨0⟩, ⟨1⟩, ⟨2⟩] [⟨5⟩, ⟨6⟩] = .ok ⟨"0|5|1|6|2"⟩ := rfl
  obtain ⟨reversed, hreversed, hiff⟩ := hreverse _ _ _ hparts
  have hlisted : (⟨"0|5|1|6|2"⟩ : MetaPath) ∈ paths := by
    refine (mem_metaPaths_iff hpaths).mpr ⟨⟨0⟩, [(⟨5⟩, ⟨1⟩), (⟨6⟩, ⟨2⟩)], ?_, rfl, ?_, rfl⟩
    · decide +kernel
    · exact ⟨by decide +kernel, by decide +kernel, trivial⟩
  cases hreversed
  exact ⟨paths, hpaths, hlisted, hiff.mp hlisted⟩

end Schema

end Hetnet
