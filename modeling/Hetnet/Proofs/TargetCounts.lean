import Mathlib
import Hetnet.Proofs.Engines
import Hetnet.Proofs.FrozenGraphs
import Hetnet.Proofs.RequestModes
import Hetnet.Proofs.WalkCounts

/-!
# An exact count is the number of instances

An instance of a meta-path is a walk together with a label for each node that it visits.
Where no list repeats anything, a walk is told by its nodes and a choice by its labels,
so the ways of `Hetnet.Proofs.WalkCounts` are the instances themselves; a request of several
searches has the instances of each of them, told apart by the place of the search.

A count is exact when nothing was skipped, and then its value at every target is the number
of instances of the whole request. Seeds, limits and workers do not appear in
`Network.instances`, so the count does not depend on them.
-/

namespace Hetnet

open Double

/-! ## Instances -/

/-- A walk in one of several searches, told by its nodes after the first, and a label for
each node that it visits, the first one included. -/
structure Instance where
  place : Nat
  nodes : List NodeId
  labels : List LabelId

/-- The searches of a request, when none is skipped. -/
def Request.searches (g : Network) (direction : Direction) : Request → List Ends
  | .pair start stop => [(start, some stop)]
  | .walksFrom start => [(start, none)]
  | .wholeGraph range =>
      (g.adjacentPairs direction range).map fun pair => (pair.1, some pair.2)
  | .pairs list => list.map fun pair => (pair.1, some pair.2)

namespace Network

/-- The types of the edges that a walk from a node takes. -/
def edgeTypesAlong (g : Network) : NodeId → List NodeId → List EdgeTypeId
  | _, [] => []
  | node, next :: rest => g.edgeTypeOf node next :: g.edgeTypesAlong next rest

/-- A label for each node of a walk, the first one included, and the key that they spell. -/
structure Labelling (g : Network) (start : NodeId) (nodes : List NodeId) (labels : List LabelId)
    (K : MetaPath) : Prop where
  carried : List.Forall₂ (fun label node => label ∈ g.labelsOf node) labels (start :: nodes)
  key : MetaPath.ofParts labels (g.edgeTypesAlong start nodes) = .ok K

/-- The instances of a meta-path in a list of searches, under the length bound of settings. -/
def instances (g : Network) (direction : Direction) (settings : SearchSettings)
    (searches : List Ends) (K : MetaPath) : Set Instance :=
  {i | ∃ start target, searches[i.place]? = some (start, target) ∧
    g.Joined direction start i.nodes ∧ Admitted settings target i.nodes ∧
      g.Labelling start i.nodes i.labels K}

/-- Nothing is listed twice. -/
structure Distinct (g : Network) (direction : Direction) : Prop where
  neighbors : ∀ node, (g.neighbors node direction).Nodup
  labels : ∀ node, (g.labelsOf node).Nodup

variable {g : Network} {direction : Direction}

/-! ### Walks told by their nodes -/

theorem Walk.joined {node : NodeId} {positions : List Nat} {nodes : List NodeId}
    (h : g.Walk direction node positions nodes) : g.Joined direction node nodes := by
  induction h with
  | stop => exact List.isChain_singleton _
  | step hnext _ ih => exact joined_cons.mpr ⟨List.mem_of_getElem? hnext, ih⟩

theorem exists_walk {node : NodeId} {nodes : List NodeId} (h : g.Joined direction node nodes) :
    ∃ positions, g.Walk direction node positions nodes := by
  induction nodes generalizing node with
  | nil => exact ⟨[], .stop⟩
  | cons next rest ih =>
      obtain ⟨hnext, hrest⟩ := joined_cons.mp h
      obtain ⟨position, hposition⟩ := List.mem_iff_getElem?.mp hnext
      obtain ⟨positions, hwalk⟩ := ih hrest
      exact ⟨position :: positions, .step hposition hwalk⟩

theorem Distinct.positions_eq (hd : g.Distinct direction) {node : NodeId}
    {positions others : List Nat} {nodes : List NodeId}
    (h : g.Walk direction node positions nodes) (h' : g.Walk direction node others nodes) :
    positions = others := by
  induction h generalizing others with
  | stop =>
      cases h'
      rfl
  | @step node next position positions nodes hnext _ ih =>
      cases h' with
      | @step _ _ other others _ hnext' hrest' =>
          obtain ⟨hlt, hget⟩ := List.getElem?_eq_some_iff.mp hnext
          obtain ⟨hlt', hget'⟩ := List.getElem?_eq_some_iff.mp hnext'
          obtain rfl := (hd.neighbors node).getElem_inj_iff.mp (hget.trans hget'.symm)
          rw [ih hrest']

/-! ### Choices told by their labels -/

@[simp] theorem length_edgeTypesAlong (node : NodeId) (nodes : List NodeId) :
    (g.edgeTypesAlong node nodes).length = nodes.length := by
  induction nodes generalizing node with
  | nil => rfl
  | cons next rest ih => rw [edgeTypesAlong, List.length_cons, ih, List.length_cons]

theorem listing_choices_labels (hlabels : ∀ node, (g.labelsOf node).Nodup) (node : NodeId)
    (nodes : List NodeId) :
    Listing (Trace.choices (g.stepsOf node nodes)) fun (labels : List LabelId) steps =>
      List.Forall₂ (fun label node => label ∈ g.labelsOf node) labels nodes ∧
        steps = (g.edgeTypesAlong node nodes).zip labels := by
  induction nodes generalizing node with
  | nil =>
      refine (Listing.singleton [] []).congr fun labels steps => ?_
      rw [List.forall₂_nil_right_iff]
      rfl
  | cons next rest ih =>
      refine ((Listing.self (hlabels next)).flatMap
        (fun _ label _ => (ih next).map ((g.edgeTypeOf node next, label) :: ·))
        List.cons fun _ _ _ _ heq => List.cons_eq_cons.mp heq).congr fun labels steps => ?_
      constructor
      · intro hway
        obtain ⟨_, label, more, ⟨rfl, hlabel⟩, ⟨_, ⟨hmore, rfl⟩, rfl⟩, rfl⟩ := hway
        exact ⟨.cons hlabel hmore, rfl⟩
      · intro hway
        obtain ⟨hcarried, rfl⟩ := hway
        cases hcarried with
        | @cons label _ more _ hlabel hmore =>
            exact ⟨label, label, more, ⟨rfl, hlabel⟩, ⟨_, ⟨hmore, rfl⟩, rfl⟩, rfl⟩

theorem labelling_cons {start : NodeId} {nodes : List NodeId} {label : LabelId}
    {labels : List LabelId} {K : MetaPath} :
    g.Labelling start nodes (label :: labels) K ↔ label ∈ g.labelsOf start ∧
      List.Forall₂ (fun label node => label ∈ g.labelsOf node) labels nodes ∧
        K = MetaPath.ofSteps label ((g.edgeTypesAlong start nodes).zip labels) := by
  have hkey : List.Forall₂ (fun label node => label ∈ g.labelsOf node) labels nodes →
      (MetaPath.ofParts (label :: labels) (g.edgeTypesAlong start nodes) = .ok K ↔
        K = MetaPath.ofSteps label ((g.edgeTypesAlong start nodes).zip labels)) := by
    intro hcarried
    have hlength : labels.length = (g.edgeTypesAlong start nodes).length := by
      rw [hcarried.length_eq, length_edgeTypesAlong]
    rw [MetaPath.ofParts, if_pos hlength, Except.ok.injEq, eq_comm]
  constructor
  · intro h
    obtain ⟨hlabel, hcarried⟩ := List.forall₂_cons.mp h.carried
    exact ⟨hlabel, hcarried, (hkey hcarried).mp h.key⟩
  · intro h
    obtain ⟨hlabel, hcarried, hK⟩ := h
    exact ⟨.cons hlabel hcarried, (hkey hcarried).mpr hK⟩

theorem listing_labelling (hlabels : ∀ node, (g.labelsOf node).Nodup) (start : NodeId)
    (nodes : List NodeId) : Listing (g.pathsAlong start nodes) (g.Labelling start nodes) := by
  rw [pathsAlong, Trace.expand, traceOf, List.reverse_reverse]
  refine ((Listing.self (hlabels start)).flatMap
    (fun _ label _ => (listing_choices_labels hlabels start nodes).map (MetaPath.ofSteps label))
    List.cons fun _ _ _ _ heq => List.cons_eq_cons.mp heq).congr fun labels K => ?_
  constructor
  · intro hway
    obtain ⟨_, label, more, ⟨rfl, hlabel⟩, ⟨_, ⟨hmore, rfl⟩, rfl⟩, rfl⟩ := hway
    exact labelling_cons.mpr ⟨hlabel, hmore, rfl⟩
  · intro h
    cases labels with
    | nil => cases h.carried
    | cons label more =>
        obtain ⟨hlabel, hmore, rfl⟩ := labelling_cons.mp h
        exact ⟨label, label, more, ⟨rfl, hlabel⟩, ⟨_, ⟨hmore, rfl⟩, rfl⟩, rfl⟩

end Network

/-! ## The instances of a list of searches -/

namespace Enumerator

variable {e : Enumerator} {settings : SearchSettings}

theorem listing_recorded_nodes (hd : e.network.Distinct e.direction)
    (hlength : settings.maxLength ≠ 0) (hskip : value? settings.edgeSkip = some 0)
    (target : Option NodeId) (start : NodeId) (seed : UInt64) :
    Listing ((e.search settings target).recorded start seed) fun i nodes =>
      i = nodes ∧ e.network.Joined e.direction start nodes ∧ Admitted settings target nodes := by
  refine ((Search.listing_recorded e hlength hskip target start seed).reindex
    (fun _ nodes => nodes) ?_).congr fun i nodes => ?_
  · intro positions nodes others _ hwalk hwalk' heq
    subst heq
    exact hd.positions_eq hwalk.1 hwalk'.1
  · constructor
    · intro hway
      obtain ⟨positions, ⟨hwalk, hadmitted⟩, rfl⟩ := hway
      exact ⟨rfl, hwalk.joined, hadmitted⟩
    · intro hway
      obtain ⟨rfl, hjoined, hadmitted⟩ := hway
      obtain ⟨positions, hwalk⟩ := Network.exists_walk hjoined
      exact ⟨positions, ⟨hwalk, hadmitted⟩, rfl⟩

theorem listing_pathsBetween (hd : e.network.Distinct e.direction)
    (hlength : settings.maxLength ≠ 0) (hskip : value? settings.edgeSkip = some 0) (ends : Ends) :
    Listing (e.pathsOf (e.walksBetween settings ends))
      fun (way : List NodeId × List LabelId) K =>
        e.network.Joined e.direction ends.1 way.1 ∧ Admitted settings ends.2 way.1 ∧
          e.network.Labelling ends.1 way.1 way.2 K := by
  rw [pathsOf_walksBetween]
  refine ((listing_recorded_nodes hd hlength hskip ends.2 ends.1 _).flatMap
    (fun _ nodes _ => Network.listing_labelling hd.labels ends.1 nodes) Prod.mk
    fun _ _ _ _ heq => Prod.mk.inj heq).congr fun way K => ?_
  constructor
  · intro hway
    obtain ⟨_, nodes, labels, ⟨rfl, hjoined, hadmitted⟩, hspelled, rfl⟩ := hway
    exact ⟨hjoined, hadmitted, hspelled⟩
  · intro hway
    obtain ⟨hjoined, hadmitted, hspelled⟩ := hway
    exact ⟨way.1, way.1, way.2, ⟨rfl, hjoined, hadmitted⟩, hspelled, rfl⟩

/-- The paths of several searches are spelled once for each of their instances. -/
theorem listing_instances (hd : e.network.Distinct e.direction)
    (hlength : settings.maxLength ≠ 0) (hskip : value? settings.edgeSkip = some 0)
    (list : List Ends) :
    Listing (e.pathsOf (e.walksAmong settings list)) fun i K =>
      i ∈ e.network.instances e.direction settings list K := by
  rw [pathsOf_walksAmong]
  refine ((Listing.positions list).flatMap
    (fun _ ends _ => listing_pathsBetween hd hlength hskip ends)
    (fun place way => Instance.mk place way.1 way.2) ?_).congr fun i K => ?_
  · intro place other way way' heq
    obtain ⟨hplace, hnodes, hlabels⟩ := Instance.mk.inj heq
    exact ⟨hplace, Prod.ext hnodes hlabels⟩
  -- A search listed twice has its instances twice, because they tell its place.
  · constructor
    · intro hway
      obtain ⟨place, ⟨start, target⟩, way, hplace, hspelled, rfl⟩ := hway
      exact ⟨start, target, hplace, hspelled⟩
    · intro hway
      obtain ⟨start, target, hplace, hspelled⟩ := hway
      exact ⟨i.place, (start, target), (i.nodes, i.labels), hplace, hspelled, rfl⟩

end Enumerator

/-! ## Tables of targets -/

namespace Occurrences

theorem getElem?_tabulate {β : Type} {targets : MetaPathSet} (value : MetaPath → β) {K : MetaPath}
    (h : K ∈ targets) : (tabulate targets value)[K]? = some (value K) := by
  refine Std.ExtTreeMap.getElem?_ofList_of_mem Std.ReflCmp.compare_self ?_
    (List.mem_map_of_mem (Std.ExtTreeSet.mem_toList.mpr h))
  exact List.pairwise_map.mpr (Std.ExtTreeSet.distinct_toList (t := targets))

theorem mem_tabulate {β : Type} {targets : MetaPathSet} {value : MetaPath → β} {K : MetaPath} :
    K ∈ tabulate targets value ↔ K ∈ targets := by
  rw [tabulate, Std.ExtTreeMap.mem_ofList, List.contains_iff_mem, List.map_map]
  show K ∈ targets.toList.map id ↔ _
  rw [List.map_id, Std.ExtTreeSet.mem_toList]

theorem eq_of_getElem?_tabulate {β : Type} {targets : MetaPathSet} {value : MetaPath → β}
    {K : MetaPath} {v : β} (h : (tabulate targets value)[K]? = some v) : value K = v := by
  have hmem : K ∈ tabulate targets value :=
    Std.ExtTreeMap.mem_iff_isSome_getElem?.mpr (Option.isSome_of_eq_some h)
  rw [getElem?_tabulate _ (mem_tabulate.mp hmem)] at h
  exact Option.some.inj h

theorem estimate_eq_zero {o : Occurrences} {K : MetaPath} (h : o.observed K = 0) :
    o.estimate K = 0.0 := by
  rw [estimate, h]
  rfl

end Occurrences

/-! ## Requests that skip nothing -/

/-- Settings under which a request skips no edge and, if it is made of pairs, no pair. -/
def SearchSettings.SkipsNothing (settings : SearchSettings) (request : Request) : Prop :=
  value? settings.edgeSkip = some 0 ∧
    (value? settings.nodeSkip = some 0 ∨ request.samplesPairs = false)

namespace Enumerator

variable {e : Enumerator} {settings : SearchSettings} {request : Request}

theorem endsOf_eq_searches (h : settings.SkipsNothing request) :
    e.endsOf settings request = request.searches e.network e.direction := by
  have hpairs : ∀ list : List (NodeId × NodeId), value? settings.nodeSkip = some 0 →
      e.endsOf settings (.pairs list) = list.map fun pair => (pair.1, some pair.2) := by
    intro list hskip
    rw [endsOf_pairs, List.filter_eq_self.mpr fun pair _ =>
      Sampling.keepPair_of_value? hskip e.seed pair.1 pair.2]
  cases request with
  | pair start stop => rfl
  | walksFrom start => rfl
  | wholeGraph range =>
      rw [endsOf_wholeGraph, hpairs _ (h.2.resolve_right fun heq => by cases heq)]
      rfl
  | pairs list => exact hpairs list (h.2.resolve_right fun heq => by cases heq)

/-- What is recorded about the skipping tells whether anything was skipped. -/
theorem isSampled_occurrencesOf (hvalid : settings.validate = .ok ()) (request : Request) :
    (e.occurrencesOf settings request).isSampled = true ↔ ¬ settings.SkipsNothing request := by
  obtain ⟨-, ⟨hnode, hnode'⟩, hedge, hedge'⟩ := SearchSettings.validate_eq_ok.mp hvalid
  rw [Occurrences.isSampled, Bool.or_eq_true, decide_eq_true_iff, decide_eq_true_iff,
    SearchSettings.SkipsNothing, not_and_or, not_or]
  refine or_congr (zero_lt_iff_of_probability hedge hedge') ?_
  show 0.0 < (if request.samplesPairs = true then settings.nodeSkip else 0.0) ↔ _
  cases request.samplesPairs with
  | true =>
      rw [if_pos rfl, zero_lt_iff_of_probability hnode hnode']
      exact (and_iff_left Bool.noConfusion).symm
  | false =>
      rw [if_neg Bool.false_ne_true, lt_iff_of_value? value?_zero value?_zero]
      exact iff_of_false (lt_irrefl 0) fun h => h.2 rfl

/-- A request that skips nothing observes every path as often as it has instances. -/
theorem encard_instances (hd : e.network.Distinct e.direction) (hlength : settings.maxLength ≠ 0)
    (h : settings.SkipsNothing request) (K : MetaPath) :
    (e.network.instances e.direction settings (request.searches e.network e.direction) K).encard =
      (e.occurrencesOf settings request).observed K := by
  rw [observed_occurrencesOf, walksOf, endsOf_eq_searches h]
  exact (listing_instances hd hlength h.1 _).count_eq_encard K

theorem encard_of_getElem?_exact (hd : e.network.Distinct e.direction)
    (hlength : settings.maxLength ≠ 0) (h : settings.SkipsNothing request)
    {targets : MetaPathSet} {K : MetaPath} {n : Nat}
    (hn : ((e.occurrencesOf settings request).exact targets)[K]? = some n) :
    (e.network.instances e.direction settings
      (request.searches e.network e.direction) K).encard = n := by
  rw [encard_instances hd hlength h, ← Occurrences.eq_of_getElem?_tabulate hn]

end Enumerator

/-! ## Built graphs -/

namespace GraphBuilder

variable {b : GraphBuilder} {additions : List Addition}

/-- A built graph lists nothing twice. -/
theorem Records.distinct (h : b.Records additions) (direction : Direction) :
    b.build.network.Distinct direction where
  neighbors := by
    intro node
    cases direction <;> exact (increasing_ofArcs _ _ node).nodup
  labels := fun node => (h.increasing_labels node).nodup

end GraphBuilder

namespace Engine

theorem count_eq_ok {e : Engine} {search : SearchSettings} {request : Request}
    (h : e.enumerator.CanAnswer search request) (targets : MetaPathSet) :
    e.count request search targets =
      .ok ((e.enumerator.occurrencesOf search request).count targets) := by
  rw [count, occurrences, Enumerator.occurrences_eq_ok h]
  rfl

/-- Counting targets in a built graph succeeds, with a value for every target and for nothing
else. Where nothing is skipped the values are the numbers of instances; otherwise they are
the estimates from the occurrences of the same request, and zero for a target that
did not occur. -/
theorem count_instances {calls : List BuilderCall} {settings : EngineSettings}
    {reports : Reporting} {e : Engine}
    (hcreate : create (GraphBuilder.ofCalls calls).build.network settings reports = .ok e)
    {search : SearchSettings} (hvalid : search.validate = .ok ())
    (hroom : Trace.reserve search.maxLength = .ok ())
    {request : Request} (hknows : e.enumerator.Knows request) (targets : MetaPathSet) :
    (search.SkipsNothing request → ∃ table, e.count request search targets = .ok (.exact table) ∧
      (∀ K, K ∈ table ↔ K ∈ targets) ∧
      ∀ K (n : Nat), table[K]? = some n →
        (e.network.instances settings.direction search
          (request.searches e.network settings.direction) K).encard = n) ∧
    (¬ search.SkipsNothing request → ∃ o table, e.occurrences request search = .ok o ∧
      e.count request search targets = .ok (.approximate table) ∧
      (∀ K, K ∈ table ↔ K ∈ targets) ∧
      ∀ K ∈ targets, table[K]? = some (o.estimate K) ∧
        (o.observed K = 0 → table[K]? = some 0.0)) := by
  obtain ⟨additions, -, h⟩ := GraphBuilder.records_ofCalls calls
  obtain ⟨-, hnetwork, rfl, -⟩ := create_eq_ok_iff.mp hcreate
  have hanswer := canAnswer_of_built hcreate hvalid hroom hknows
  have hsampled := Enumerator.isSampled_occurrencesOf (e := e.enumerator) hvalid request
  rw [count_eq_ok hanswer, Occurrences.count]
  constructor
  · intro hskip
    have hd : e.network.Distinct e.settings.direction := hnetwork ▸ h.distinct _
    rw [if_neg fun hs => hsampled.mp hs hskip]
    exact ⟨_, rfl, fun K => Occurrences.mem_tabulate, fun K n hn =>
      Enumerator.encard_of_getElem?_exact (e := e.enumerator) hd
        (SearchSettings.validate_eq_ok.mp hvalid).1 hskip hn⟩
  · intro hskip
    rw [if_pos (hsampled.mpr hskip)]
    refine ⟨_, _, Enumerator.occurrences_eq_ok hanswer, rfl, fun K => Occurrences.mem_tabulate,
      fun K hK => ?_⟩
    rw [Occurrences.approximate, Occurrences.getElem?_tabulate _ hK]
    exact ⟨rfl, fun hzero => congrArg some (Occurrences.estimate_eq_zero hzero)⟩

/-- A path along an edge between the two nodes, and one around the loop. -/
def loopTargets : MetaPathSet :=
  Std.ExtTreeSet.ofList [MetaPath.mk "0|5|2", MetaPath.mk "0|4|1"]

/-- The two targets, counted over the whole graph with nothing skipped and with every second
pair skipped. -/
theorem count_instances_loop :
    (∃ table, loop.count (.wholeGraph none) { maxLength := 2, limit := some 1 } loopTargets =
        .ok (.exact table) ∧
      (∀ K, K ∈ table ↔ K ∈ loopTargets) ∧
      ∀ K (n : Nat), table[K]? = some n →
        (loop.network.instances .incoming { maxLength := 2, limit := some 1 }
          ((Request.wholeGraph none).searches loop.network .incoming) K).encard = n) ∧
    ∃ o table,
      loop.occurrences (.wholeGraph none) { maxLength := 2, nodeSkip := 0.5 } = .ok o ∧
      loop.count (.wholeGraph none) { maxLength := 2, nodeSkip := 0.5 } loopTargets =
        .ok (.approximate table) ∧
      (∀ K, K ∈ table ↔ K ∈ loopTargets) ∧
      ∀ K ∈ loopTargets, table[K]? = some (o.estimate K) ∧
        (o.observed K = 0 → table[K]? = some 0.0) := by
  have hknows : loop.enumerator.Knows (.wholeGraph none) := trivial
  constructor
  · refine (count_instances create_loop (SearchSettings.validate_eq_ok.mpr ?_) (by decide)
      hknows loopTargets).1 ⟨value?_zero, Or.inl value?_zero⟩
    decide +kernel
  · refine (count_instances create_loop (SearchSettings.validate_eq_ok.mpr ?_) (by decide)
      hknows loopTargets).2 fun hskip => ?_
    · decide +kernel
    · rcases hskip.2 with hzero | hkind
      · have hhalf := hzero.symm.trans value?_half
        norm_num at hhalf
      · cases hkind

end Engine

end Hetnet
