import Mathlib
import Hetnet.Proofs.Engines
import Hetnet.Proofs.Extraction
import Hetnet.Proofs.Lengths

/-!
# The schema misses no meta-path

Two programs list meta-paths: one walks the labels of a schema, the other the nodes of a
network. The first is described by what it lists, the paths whose labels the schema links one
after the other (`Schema.metaPaths_eq_ok`). A schema covers a network in a direction if each
step in this direction is a link between all labels at its ends; then a walk with a choice
of labels is a path of the schema with the very same key, by induction on the walk
(`Schema.Covers.allows_of_mem_choices`).

The schema of a built graph is extracted from outgoing edges alone and covers the graph in
every direction all the same: a link is recorded in both orders, and an edge has one type
whichever way it is walked.
-/

namespace Hetnet

/-! ## The paths of a schema -/

/-- A loop whose steps succeed and add paths succeeds and adds what its steps do. -/
theorem MetaPathSet.foldlM_eq_ok {α ε : Type} {step : MetaPathSet → α → Except ε MetaPathSet}
    {adds : α → MetaPath → Prop}
    (hstep : ∀ paths a, ∃ more, step paths a = .ok more ∧ ∀ K, K ∈ more ↔ K ∈ paths ∨ adds a K)
    (list : List α) (paths : MetaPathSet) :
    ∃ more, list.foldlM step paths = .ok more ∧
      ∀ K, K ∈ more ↔ K ∈ paths ∨ ∃ a ∈ list, adds a K := by
  induction list generalizing paths with
  | nil => exact ⟨paths, rfl, fun K => by simp⟩
  | cons a rest ih =>
      obtain ⟨more, hmore, hadds⟩ := hstep paths a
      obtain ⟨most, hmost, hall⟩ := ih more
      refine ⟨most, bind_eq_ok hmore hmost, fun K => ?_⟩
      rw [hall, hadds, or_assoc]
      simp only [List.mem_cons, exists_eq_or_imp]

namespace Schema

variable {s : Schema} {mode : LengthMode} {maxLength : Nat} {start : LabelId}

/-- Each step is a link from the label before it, the first one from the given label. -/
def Allows (s : Schema) : LabelId → List (EdgeTypeId × LabelId) → Prop
  | _, [] => True
  | last, (edgeType, label) :: rest => s.contains last label edgeType = true ∧ s.Allows label rest

/-- A path that is listed on the way on from a label: by at least one link and at most
`remaining`, where `steps` led there, latest first. -/
def Continues (s : Schema) (mode : LengthMode) (maxLength : Nat) (start : LabelId)
    (remaining : Nat) (last : LabelId) (steps : List (EdgeTypeId × LabelId))
    (K : MetaPath) : Prop :=
  ∃ more, more ≠ [] ∧ more.length ≤ remaining ∧ s.Allows last more ∧
    mode.accepts (steps.length + more.length) maxLength = true ∧
      K = MetaPath.ofSteps start (steps.reverse ++ more)

theorem continues_succ_iff {remaining : Nat} {last : LabelId}
    {steps : List (EdgeTypeId × LabelId)} {K : MetaPath} :
    s.Continues mode maxLength start (remaining + 1) last steps K ↔
      ∃ link ∈ s.links last,
        (mode.accepts (steps.length + 1) maxLength = true ∧
          K = MetaPath.ofSteps start ((link.edgeType, link.label) :: steps).reverse) ∨
        s.Continues mode maxLength start remaining link.label
          ((link.edgeType, link.label) :: steps) K := by
  constructor
  · intro hpath
    obtain ⟨more, hne, hlength, hallows, haccepts, rfl⟩ := hpath
    cases more with
    | nil => exact absurd rfl hne
    | cons step rest =>
        obtain ⟨edgeType, label⟩ := step
        obtain ⟨hlink, hrest⟩ := hallows
        refine ⟨⟨label, edgeType⟩, mem_links.mpr hlink, ?_⟩
        -- The path ends with this link, or goes on from its label.
        cases rest with
        | nil => exact Or.inl ⟨haccepts, by rw [List.reverse_cons]⟩
        | cons next rest =>
            refine Or.inr ⟨next :: rest, List.cons_ne_nil _ _, Nat.le_of_succ_le_succ hlength,
              hrest, ?_, ?_⟩
            · rw [List.length_cons, Nat.add_right_comm]
              exact haccepts
            · rw [List.reverse_cons, List.append_assoc, List.singleton_append]
  · intro hpath
    obtain ⟨⟨label, edgeType⟩, hlink, hend | hbeyond⟩ := hpath
    · obtain ⟨haccepts, rfl⟩ := hend
      exact ⟨[(edgeType, label)], List.cons_ne_nil _ _, Nat.succ_le_succ (Nat.zero_le _),
        ⟨mem_links.mp hlink, trivial⟩, haccepts, by rw [List.reverse_cons]⟩
    · obtain ⟨more, -, hlength, hallows, haccepts, rfl⟩ := hbeyond
      refine ⟨(edgeType, label) :: more, List.cons_ne_nil _ _, Nat.succ_le_succ hlength,
        ⟨mem_links.mp hlink, hallows⟩, ?_, ?_⟩
      · rw [List.length_cons, Nat.add_right_comm] at haccepts
        exact haccepts
      · rw [List.reverse_cons, List.append_assoc, List.singleton_append]

/-- There is a label after every edge type, so the steps make up a path. -/
theorem addPath_eq_ok (steps : List (EdgeTypeId × LabelId)) (paths : MetaPathSet) :
    ∃ more, addPath mode maxLength start steps paths = .ok more ∧
      ∀ K, K ∈ more ↔ K ∈ paths ∨ mode.accepts steps.length maxLength = true ∧
        K = MetaPath.ofSteps start steps.reverse := by
  rw [addPath]
  split
  · next haccepts =>
      refine ⟨_, bind_eq_ok (MetaPath.ofParts_steps _ _) rfl, fun K => ?_⟩
      rw [Std.ExtTreeSet.mem_insert, Std.LawfulEqOrd.compare_eq_iff_eq, or_comm,
        and_iff_right haccepts, eq_comm]
  · next haccepts => exact ⟨paths, rfl, fun K => (or_iff_left fun h => haccepts h.1).symm⟩

/-- Extending lists the paths that go on from the label. -/
theorem extend_eq_ok (remaining : Nat) (last : LabelId) (steps : List (EdgeTypeId × LabelId))
    (paths : MetaPathSet) :
    ∃ more, s.extend mode maxLength start remaining last steps paths = .ok more ∧
      ∀ K, K ∈ more ↔ K ∈ paths ∨ s.Continues mode maxLength start remaining last steps K := by
  induction remaining generalizing last steps paths with
  | zero =>
      refine ⟨paths, rfl, fun K => (or_iff_left fun hpath => ?_).symm⟩
      obtain ⟨more, hne, hlength, -⟩ := hpath
      exact hne (List.length_eq_zero_iff.mp (Nat.le_zero.mp hlength))
  | succ remaining ih =>
      simp only [continues_succ_iff]
      refine MetaPathSet.foldlM_eq_ok (fun paths link => ?_) (s.links last) paths
      obtain ⟨more, hmore, hadds⟩ :=
        addPath_eq_ok ((link.edgeType, link.label) :: steps) paths
      obtain ⟨most, hmost, hall⟩ := ih link.label ((link.edgeType, link.label) :: steps) more
      exact ⟨most, bind_eq_ok hmore hmost, fun K => by
        rw [hall, hadds, or_assoc, List.length_cons]⟩

/-- The meta-paths of a schema are the keys of what it allows. -/
theorem metaPaths_eq_ok (s : Schema) (mode : LengthMode) (hlength : maxLength ≠ 0)
    (hroom : reserve (maxLength + 1) idBytes = .ok ()) :
    ∃ paths, s.metaPaths maxLength mode = .ok paths ∧ ∀ K, K ∈ paths ↔
      ∃ (start : LabelId) (steps : List (EdgeTypeId × LabelId)), start.index < s.labelCount ∧
        mode.accepts steps.length maxLength = true ∧ s.Allows start steps ∧
          K = MetaPath.ofSteps start steps := by
  have hstep : ∀ (paths : MetaPathSet) (i : Nat), ∃ more,
      (liftM (s.extend mode maxLength (.ofIndex i) maxLength (.ofIndex i) [] paths) :
        Except Failure MetaPathSet) = .ok more ∧ ∀ K, K ∈ more ↔
          K ∈ paths ∨ s.Continues mode maxLength (.ofIndex i) maxLength (.ofIndex i) [] K := by
    intro paths i
    obtain ⟨more, hmore, hadds⟩ := s.extend_eq_ok maxLength (.ofIndex i) [] paths
    exact ⟨more, liftM_eq_ok hmore, hadds⟩
  obtain ⟨paths, hpaths, hmem⟩ := MetaPathSet.foldlM_eq_ok hstep (List.range s.labelCount) ∅
  refine ⟨paths, ?_, fun K => ?_⟩
  · rw [metaPaths, if_neg hlength, hroom]
    exact hpaths
  rw [hmem, or_iff_right Std.ExtTreeSet.not_mem_empty]
  constructor
  · intro hpath
    obtain ⟨i, hi, steps, -, -, hallows, haccepts, rfl⟩ := hpath
    rw [List.length_nil, Nat.zero_add] at haccepts
    refine ⟨.ofIndex i, steps, ?_, haccepts, hallows, rfl⟩
    exact lt_of_le_of_lt (TypedId.index_ofIndex_le i) (List.mem_range.mp hi)
  · intro hpath
    obtain ⟨start, steps, hstart, haccepts, hallows, rfl⟩ := hpath
    refine ⟨start.index, List.mem_range.mpr hstart, steps, ?_, LengthMode.le_of_accepts haccepts,
      ?_, ?_, ?_⟩
    · rintro rfl
      exact LengthMode.not_accepts_zero hlength haccepts
    · rw [TypedId.ofIndex_index]
      exact hallows
    · rw [List.length_nil, Nat.zero_add]
      exact haccepts
    · rw [TypedId.ofIndex_index]
      rfl

theorem maxLength_ne_zero_of_metaPaths {paths : MetaPathSet}
    (h : s.metaPaths maxLength mode = .ok paths) : maxLength ≠ 0 := by
  rintro rfl
  cases h

/-- Whatever the listing was asked for, what it lists are the keys of what the schema allows. -/
theorem mem_metaPaths_iff {paths : MetaPathSet} (h : s.metaPaths maxLength mode = .ok paths)
    {K : MetaPath} : K ∈ paths ↔
      ∃ (start : LabelId) (steps : List (EdgeTypeId × LabelId)), start.index < s.labelCount ∧
        mode.accepts steps.length maxLength = true ∧ s.Allows start steps ∧
          K = MetaPath.ofSteps start steps := by
  have hlength := maxLength_ne_zero_of_metaPaths h
  have hroom : reserve (maxLength + 1) idBytes = .ok () := by
    rw [metaPaths, if_neg hlength] at h
    obtain ⟨_, hroom, -⟩ := ok_of_bind h
    exact hroom
  obtain ⟨listed, hlisted, hmem⟩ := s.metaPaths_eq_ok mode hlength hroom
  obtain rfl := Except.ok.inj (hlisted.symm.trans h)
  exact hmem K

/-! ## Covering -/

/-- Each step in a direction is a link between every label at one end and every label at
the other. -/
structure Covers (s : Schema) (g : Network) (direction : Direction) : Prop where
  label_lt : ∀ node, ∀ label ∈ g.labelsOf node, label.index < s.labelCount
  contains : ∀ node, ∀ next ∈ g.neighbors node direction, ∀ a ∈ g.labelsOf node,
    ∀ b ∈ g.labelsOf next, s.contains a b (g.edgeTypeOf node next) = true

variable {g : Network} {direction : Direction}

/-- A schema that covers a network allows every choice of labels along every walk. -/
theorem Covers.allows_of_mem_choices (h : s.Covers g direction) {node : NodeId}
    {walk : List NodeId} (hwalk : g.Joined direction node walk) {label : LabelId}
    (hlabel : label ∈ g.labelsOf node) {steps : List (EdgeTypeId × LabelId)}
    (hsteps : steps ∈ Trace.choices (g.stepsOf node walk)) : s.Allows label steps := by
  induction walk generalizing node label steps with
  | nil =>
      rw [List.mem_singleton.mp hsteps]
      trivial
  | cons next rest ih =>
      obtain ⟨hnext, hrest⟩ := Network.joined_cons.mp hwalk
      obtain ⟨nextLabel, hnextLabel, hmem⟩ := List.mem_flatMap.mp hsteps
      obtain ⟨more, hmore, rfl⟩ := List.mem_map.mp hmem
      exact ⟨h.contains node next hnext label hlabel nextLabel hnextLabel,
        ih hrest hnextLabel hmore⟩

theorem Covers.allows_of_mem_pathsAlong (h : s.Covers g direction) {node : NodeId}
    {walk : List NodeId} (hwalk : g.Joined direction node walk) {K : MetaPath}
    (hK : K ∈ g.pathsAlong node walk) :
    ∃ (start : LabelId) (steps : List (EdgeTypeId × LabelId)), start.index < s.labelCount ∧
      steps.length = walk.length ∧ s.Allows start steps ∧ K = MetaPath.ofSteps start steps := by
  obtain ⟨label, hlabel, hmem⟩ := List.mem_flatMap.mp hK
  obtain ⟨steps, hsteps, rfl⟩ := List.mem_map.mp hmem
  rw [Network.traceOf, List.reverse_reverse] at hsteps
  refine ⟨label, steps, h.label_lt node label hlabel, ?_,
    h.allows_of_mem_choices hwalk hlabel hsteps, rfl⟩
  rw [Trace.length_of_mem_choices hsteps, Network.length_stepsOf]

end Schema

/-! ## The meta-paths of a request -/

theorem MetaPathSet.mem_of_mem_truncate {paths : MetaPathSet} {count : Nat} {K : MetaPath}
    (h : K ∈ paths.truncate count) : K ∈ paths := by
  rw [truncate, Std.ExtTreeSet.mem_ofList, List.contains_iff_mem] at h
  exact Std.ExtTreeSet.mem_toList.mp (List.mem_of_mem_take h)

/-- The room for a trace is more than the room for a path of the schema. -/
theorem Schema.reserve_ids {maxLength : Nat} (h : Trace.reserve maxLength = .ok ()) :
    reserve (maxLength + 1) Schema.idBytes = .ok () := by
  unfold Trace.reserve Hetnet.reserve at h
  split at h
  · next hroom =>
      rw [reserve, if_pos]
      exact le_trans (Nat.mul_le_mul_left _ (by decide)) hroom
  · cases h

namespace Enumerator

variable {e : Enumerator} {settings : SearchSettings} {request : Request}

theorem joined_of_mem_walksOf {found : NodeId × List NodeId}
    (h : found ∈ e.walksOf settings request) :
    e.network.Joined e.direction found.1 found.2 := by
  obtain ⟨ends, -, hbetween⟩ := List.mem_flatMap.mp h
  obtain ⟨walk, hrecorded, rfl⟩ := List.mem_map.mp hbetween
  exact Search.joined_of_mem_walks (List.mem_filter.mp hrecorded).1

theorem accepts_of_mem_walksOf {found : NodeId × List NodeId}
    (h : found ∈ e.walksOf settings request) :
    settings.mode.accepts found.2.length settings.maxLength = true := by
  have hbounded : found ∈ e.walksOf (settings.bounded settings.mode settings.maxLength) request := h
  exact length_of_mem_walksOf hbounded

/-- A limit leaves meta-paths out and puts none in. -/
theorem mem_pathsOf_of_mem_paths {K : MetaPath} (h : K ∈ (e.resultOf settings request).paths) :
    K ∈ e.pathsOf (e.walksOf settings request) := by
  rw [resultOf] at h
  refine MetaPathSet.mem_ofPaths.mp ?_
  split at h
  · split at h
    · exact MetaPathSet.mem_of_mem_truncate h
    · exact h
  · exact h

/-- Whatever a request finds is among the meta-paths of a schema that covers the network. -/
theorem mem_metaPaths_of_covers {s : Schema} (h : s.Covers e.network e.direction)
    (hlength : settings.maxLength ≠ 0) (hroom : Trace.reserve settings.maxLength = .ok ()) :
    ∃ paths, s.metaPaths settings.maxLength settings.mode = .ok paths ∧
      ∀ K ∈ (e.resultOf settings request).paths, K ∈ paths := by
  obtain ⟨paths, hpaths, hmem⟩ :=
    s.metaPaths_eq_ok settings.mode hlength (Schema.reserve_ids hroom)
  refine ⟨paths, hpaths, fun K hK => (hmem K).mpr ?_⟩
  obtain ⟨⟨start, walk⟩, hwalk, hspelled⟩ := List.mem_flatMap.mp (mem_pathsOf_of_mem_paths hK)
  obtain ⟨label, steps, hlabel, hsteps, hallows, rfl⟩ :=
    h.allows_of_mem_pathsAlong (joined_of_mem_walksOf hwalk) hspelled
  exact ⟨label, steps, hlabel, hsteps ▸ accepts_of_mem_walksOf hwalk, hallows, rfl⟩

end Enumerator

/-! ## Built graphs -/

namespace GraphBuilder

variable {b : GraphBuilder} {additions : List Addition}

theorem edgeTypeOf_comm (h : b.Records additions) (hends : b.Consistent) {src dst : NodeId}
    (harc : Arc.mk src dst ∈ b.arcs) :
    b.build.network.edgeTypeOf dst src = b.build.network.edgeTypeOf src dst := by
  obtain ⟨edgeType, hforth⟩ := edgeType_of_arc (Or.inl harc)
  have hback := ((h.freezes hends).edgeType_comm src dst edgeType).mp hforth
  rw [edgeTypeOf_build hforth, edgeTypeOf_build hback]

/-- The links of the outgoing edges cover a built graph in every direction. -/
theorem covers_build (h : b.Records additions) (hends : b.Consistent) {s : Schema}
    (hcount : s.labelCount = b.build.labelCount)
    (hlinks : ∀ a c edgeType, s.contains a c edgeType = true ↔
      ∃ node, b.build.network.contains node = true ∧
        b.build.network.LinksFrom node a c edgeType)
    (direction : Direction) : s.Covers b.build.network direction where
  label_lt := by
    intro node label hlabel
    rw [hcount]
    exact labelsBounded_build h node label hlabel
  contains := by
    intro node next hnext a ha c hc
    rw [hlinks]
    have hsrc : ∀ {src dst : NodeId}, Arc.mk src dst ∈ b.arcs →
        b.build.network.contains src = true := fun harc =>
      contains_build_iff.mpr (hends.ends _ harc).1
    -- The step goes along an edge, or against one that is found where it starts.
    rcases arc_of_mem_neighbors hnext with hforth | hback
    · exact ⟨node, hsrc hforth, next, (mem_outgoing hends).mpr hforth, rfl, Or.inl ⟨ha, hc⟩⟩
    · exact ⟨next, hsrc hback, node, (mem_outgoing hends).mpr hback,
        edgeTypeOf_comm h hends hback, Or.inr ⟨hc, ha⟩⟩

end GraphBuilder

namespace Engine

/-- Whatever an engine finds in a built graph, in any direction, under any sampling and any
limit, is a meta-path that the schema of the graph allows, and both lists are made
without failure. -/
theorem enumerate_within_schema {calls : List BuilderCall} {settings : EngineSettings}
    {reports : Reporting} {e : Engine}
    (hlabels : (GraphBuilder.ofCalls calls).build.labelCount < UInt32.size)
    (hcreate : create (GraphBuilder.ofCalls calls).build.network settings reports = .ok e)
    (hblocks : reserve settings.schemaPartitions Block.bytes = .ok ())
    {search : SearchSettings} (hvalid : search.validate = .ok ())
    (hroom : Trace.reserve search.maxLength = .ok ())
    {request : Request} (hknows : e.enumerator.Knows request) :
    ∃ r paths, e.enumerate request search = .ok r ∧
      e.schemaMetaPaths search.maxLength search.mode = .ok paths ∧
      ∀ K ∈ r.paths, K ∈ paths := by
  obtain ⟨additions, -, h⟩ := GraphBuilder.records_ofCalls calls
  have hends := GraphBuilder.consistent_ofCalls calls
  obtain ⟨hsettings, hnetwork, rfl, -⟩ := create_eq_ok_iff.mp hcreate
  obtain ⟨-, hparts, -⟩ := EngineSettings.validate_eq_ok.mp hsettings
  obtain ⟨s, hs, hcount, hlinks⟩ := Schema.extract_eq_ok
    (GraphBuilder.readable_build (GraphBuilder.ofCalls calls) .outgoing)
    (GraphBuilder.labelsBounded_build h) (Schema.reserve_rows hlabels) hparts hblocks
  have hcovers : s.Covers e.network e.settings.direction := by
    rw [hnetwork]
    exact GraphBuilder.covers_build h hends hcount hlinks e.settings.direction
  obtain ⟨paths, hpaths, hwithin⟩ := Enumerator.mem_metaPaths_of_covers (e := e.enumerator)
    hcovers (SearchSettings.validate_eq_ok.mp hvalid).1 hroom
  refine ⟨_, paths, Enumerator.enumerate_eq_ok (canAnswer_of_built hcreate hvalid hroom hknows),
    ?_, hwithin⟩
  rw [schemaMetaPaths, schema, hnetwork, hs e.reports]
  exact hpaths

/-- Some of the edges and pairs of a graph of two nodes are skipped, and of what is found at
most two paths are returned. -/
theorem enumerate_within_schema_loop :
    ∃ r paths, loop.enumerate (.wholeGraph none)
        { maxLength := 3, nodeSkip := 0.5, edgeSkip := 0.5, limit := some 2 } = .ok r ∧
      loop.schemaMetaPaths 3 .upTo = .ok paths ∧ ∀ K ∈ r.paths, K ∈ paths := by
  refine enumerate_within_schema GraphBuilder.labelCount_loop_lt create_loop rfl
    (SearchSettings.validate_eq_ok.mpr ?_) (by decide) trivial
  decide +kernel

end Engine

end Hetnet
