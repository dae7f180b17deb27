import Mathlib
import Hetnet.Enumeration
import Hetnet.Network.Listed
import Hetnet.Proofs.TaskRuns
import Hetnet.Proofs.Walks

/-!
# A request is a list of searches

The four kinds of request differ in the pairs of nodes that they search between and in
nothing else. `Enumerator.endsOf` lists these pairs for a request, `outcomeOf` says what
a list of pairs comes to, and `collect_eq_outcomeOf` that the enumerator answers with
just this, however it cuts the list into tasks and merges what they bring back.

The outcome of two lists end to end is the outcome of one absorbed by the other, which
is the whole theory of tasks: where one task ends and the next begins cannot be seen.

Whatever fails, fails in the checks or in reading the network, and `Enumerator.reading` is
just that. No collector occurs in it (`collect_eq_reading`), so every collector meets
the same failures and is told of the same one, and a request that can be answered is one that
can be read.
-/

namespace Hetnet

/-- The ends of a search: where its walks start, and where they have to end if that is
not left open. -/
abbrev Ends := NodeId × Option NodeId

/-! ## Settings in order -/

theorem SearchSettings.checkProbability_eq_ok (name : String) (value : Float) :
    checkProbability name value = .ok () ↔ 0.0 ≤ value ∧ value ≤ 1.0 := by
  rw [checkProbability]
  split
  · next h => exact iff_of_true rfl h
  · next h => exact iff_of_false (fun heq => by cases heq) h

theorem SearchSettings.validate_eq_ok {settings : SearchSettings} :
    settings.validate = .ok () ↔ settings.maxLength ≠ 0 ∧
      (0.0 ≤ settings.nodeSkip ∧ settings.nodeSkip ≤ 1.0) ∧
        0.0 ≤ settings.edgeSkip ∧ settings.edgeSkip ≤ 1.0 := by
  rw [← checkProbability_eq_ok "node_skip_probability",
    ← checkProbability_eq_ok "edge_skip_probability", validate]
  by_cases hlength : settings.maxLength = 0
  · rw [if_pos hlength]
    exact iff_of_false (fun heq => by cases heq) fun h => h.1 hlength
  · rw [if_neg hlength]
    cases hnode : checkProbability "node_skip_probability" settings.nodeSkip with
    | error cause => exact iff_of_false (fun heq => by cases heq) fun h => by cases h.2.1
    | ok _ => exact ⟨fun h => ⟨hlength, rfl, h⟩, fun h => h.2.2⟩

theorem Trace.reserve_of_le {few many : Nat} (h : Trace.reserve many = .ok ()) (hle : few ≤ many) :
    Trace.reserve few = .ok () := by
  unfold Trace.reserve Hetnet.reserve at h ⊢
  split at h
  · next hroom =>
      rw [if_pos]
      exact le_trans (Nat.mul_le_mul_right _ (Nat.succ_le_succ hle)) hroom
  · cases h

theorem liftM_ok_bind {α β : Type} (a : α) (f : α → Except Failure β) :
    ((liftM (Except.ok a : Except Error α) : Except Failure α) >>= f) = f a :=
  rfl

/-! ## What a list of ends comes to -/

namespace Enumerator

variable {C : Type} [Collector C] (e : Enumerator) (settings : SearchSettings)

/-- The walks recorded between two ends, each with its start node. -/
def walksBetween (ends : Ends) : List (NodeId × List NodeId) :=
  ((e.search settings ends.2).recorded ends.1
    (Sampling.pairSeed e.seed ends.1 (ends.2.getD ends.1))).map (ends.1, ·)

/-- The walks recorded between the ends of a list. -/
def walksAmong (list : List Ends) : List (NodeId × List NodeId) :=
  list.flatMap (e.walksBetween settings)

/-- The meta-paths of walks with their start nodes. -/
def pathsOf (walks : List (NodeId × List NodeId)) : List MetaPath :=
  walks.flatMap fun (start, walk) => e.network.pathsAlong start walk

theorem pathsOf_walksBetween (ends : Ends) :
    e.pathsOf (e.walksBetween settings ends) =
      ((e.search settings ends.2).recorded ends.1
        (Sampling.pairSeed e.seed ends.1 (ends.2.getD ends.1))).flatMap
          (e.network.pathsAlong ends.1) := by
  rw [pathsOf, walksBetween, List.flatMap_map]

theorem pathsOf_walksAmong (list : List Ends) :
    e.pathsOf (e.walksAmong settings list) =
      list.flatMap fun ends => e.pathsOf (e.walksBetween settings ends) := by
  rw [pathsOf, walksAmong, List.flatMap_assoc]
  rfl

/-- The dumps that a search between two ends hands out. -/
def dumpsBetween (ends : Ends) : List PairDump :=
  match e.sink, ends.2 with
  | some _, some stop =>
      [e.dump settings ends.1 stop
        (Std.ExtTreeSet.ofList (e.pathsOf (e.walksBetween settings ends)))]
  | _, _ => []

/-- The outcome of the searches between the ends of a list. -/
def outcomeOf (C : Type) [Collector C] (list : List Ends) : Outcome C where
  collector := Collector.ofPaths C (e.pathsOf (e.walksAmong settings list))
  traces := (e.walksAmong settings list).length
  instances := .ofNat (e.pathsOf (e.walksAmong settings list)).length
  pairs := list.length
  dumps := (list.flatMap (e.dumpsBetween settings)).toArray

theorem absorb_outcomeOf [LawfulCollector C] (xs ys : List Ends) :
    (e.outcomeOf settings C xs).absorb (e.outcomeOf settings C ys) =
      e.outcomeOf settings C (xs ++ ys) := by
  simp only [Outcome.absorb, outcomeOf, walksAmong, pathsOf, LawfulCollector.merge_ofPaths,
    List.flatMap_append, List.length_append, List.append_toArray, UInt64.ofNat_add]

theorem foldl_absorb_outcomeOf [LawfulCollector C] (lists : List (List Ends)) (xs : List Ends) :
    (lists.map (e.outcomeOf settings C)).foldl Outcome.absorb (e.outcomeOf settings C xs) =
      e.outcomeOf settings C (xs ++ lists.flatten) := by
  induction lists generalizing xs with
  | nil => simp
  | cons ys rest ih =>
      rw [List.map_cons, List.foldl_cons, absorb_outcomeOf, ih, List.flatten_cons,
        List.append_assoc]

theorem merge_outcomeOf [LawfulCollector C] (lists : List (List Ends)) :
    Outcome.merge (lists.map (e.outcomeOf settings C)) = e.outcomeOf settings C lists.flatten :=
  foldl_absorb_outcomeOf e settings lists []

/-! ## The ends of a request -/

/-- The start nodes of a range that is not inverted. -/
def startsOf : Option (NodeId × NodeId) → List NodeId
  | none => Network.nodesFrom 0 e.network.nodeCount
  | some (first, stop) =>
      Network.nodesFrom (min first.index e.network.nodeCount)
        (min stop.index e.network.nodeCount)

/-- The ends of the searches to the neighbors of a node. -/
def endsFrom (start : NodeId) : List Ends :=
  ((e.network.neighbors start e.direction).filter (e.keeps settings start)).map
    fun stop => (start, some stop)

/-- The ends of the search between a pair, unless it is skipped. -/
def endsOfPair (pair : NodeId × NodeId) : List Ends :=
  if e.keeps settings pair.1 pair.2 then [(pair.1, some pair.2)] else []

/-- The ends of the searches that a request calls for. -/
def endsOf : Request → List Ends
  | .pair start stop => [(start, some stop)]
  | .walksFrom start => [(start, none)]
  | .wholeGraph range => (e.startsOf range).flatMap (e.endsFrom settings)
  | .pairs list => list.flatMap (e.endsOfPair settings)

/-- A request that names nodes of the network only, and no inverted range. -/
def Knows : Request → Prop
  | .pair start stop => e.network.contains start = true ∧ e.network.contains stop = true
  | .walksFrom start => e.network.contains start = true
  | .wholeGraph none => True
  | .wholeGraph (some (first, stop)) => first.index ≤ stop.index
  | .pairs list => ∀ pair ∈ list,
      e.network.contains pair.1 = true ∧ e.network.contains pair.2 = true

/-- Everything that an enumerator needs to answer a request: settings in order, room for
the trace, known nodes, a network that can be read and a sink that refuses nothing. -/
structure CanAnswer (request : Request) : Prop where
  valid : settings.validate = .ok ()
  room : Trace.reserve settings.maxLength = .ok ()
  knows : e.Knows request
  readable : e.network.Readable e.direction
  accepting : ∀ sink, e.sink = some sink → ∀ dump, sink.takes dump = .ok ()

variable {e settings}

theorem contains_of_mem_nodesFrom {g : Network} {first stop : Nat} (hstop : stop ≤ g.nodeCount)
    {node : NodeId} (h : node ∈ Network.nodesFrom first stop) : g.contains node = true := by
  obtain ⟨i, hi, rfl⟩ := List.mem_map.mp h
  have hlt : i < stop := by
    have := List.mem_range'_1.mp hi
    omega
  exact decide_eq_true
    (lt_of_le_of_lt (TypedId.index_ofIndex_le i) (lt_of_lt_of_le hlt hstop))

theorem contains_of_mem_startsOf {range : Option (NodeId × NodeId)} {node : NodeId}
    (h : node ∈ e.startsOf range) : e.network.contains node = true := by
  cases range with
  | none => exact contains_of_mem_nodesFrom (Nat.le_refl _) h
  | some bounds => exact contains_of_mem_nodesFrom (Nat.min_le_right _ _) h

/-- Where every listed neighbor is a node, a request for known nodes searches between nodes of the
network. -/
theorem contains_of_mem_endsOf
    (hneighbors : ∀ node, ∀ next ∈ e.network.neighbors node e.direction,
      e.network.contains next = true)
    {request : Request} (hknows : e.Knows request) {ends : Ends}
    (h : ends ∈ e.endsOf settings request) :
    e.network.contains ends.1 = true ∧
      ∀ stop, ends.2 = some stop → e.network.contains stop = true := by
  have hpair : ∀ {start stop : NodeId}, e.network.contains start = true →
      e.network.contains stop = true →
        e.network.contains start = true ∧
          ∀ other, some stop = some other → e.network.contains other = true :=
    fun hstart hstop => ⟨hstart, fun _ heq => Option.some.inj heq ▸ hstop⟩
  cases request with
  | pair start stop =>
      rw [List.mem_singleton.mp h]
      exact hpair hknows.1 hknows.2
  | walksFrom start =>
      rw [List.mem_singleton.mp h]
      exact ⟨hknows, fun _ heq => by cases heq⟩
  | wholeGraph range =>
      obtain ⟨start, hstart, hends⟩ := List.mem_flatMap.mp h
      obtain ⟨stop, hstop, rfl⟩ := List.mem_map.mp hends
      exact hpair (contains_of_mem_startsOf hstart)
        (hneighbors start stop (List.mem_of_mem_filter hstop))
  | pairs list =>
      obtain ⟨pair, hmem, hends⟩ := List.mem_flatMap.mp h
      rw [endsOfPair] at hends
      split at hends
      · rw [List.mem_singleton.mp hends]
        exact hpair (hknows pair hmem).1 (hknows pair hmem).2
      · cases hends

/-! ## What a request reads

The checks of a request and the reading of its searches are all that can fail, and no
collector occurs in them. -/

section

variable (e settings)

/-- What the search between two ends reads. -/
def readingOf (ends : Ends) : Except Failure Unit :=
  (e.search settings ends.2).reading ends.1
    (Sampling.pairSeed e.seed ends.1 (ends.2.getD ends.1))

/-- What the tasks read that each search between the ends of one input. -/
def readingTasks {α : Type} (ends : α → List Ends) (inputs : List α) : Except Failure Unit :=
  discard (liftM (runTasks (fun _ input => (ends input).forM (e.readingOf settings)) inputs
    e.reports) : Except Failure (List Unit))

/-- The checks of a request, which come before any work. -/
def admits (request : Request) : Except Error Unit := do
  settings.validate
  match request with
  | .pair start stop =>
      e.network.check start
      e.network.check stop
  | .walksFrom start => e.network.check start
  | .wholeGraph range => discard (e.startNodes range)
  | .pairs list => e.checkPairs list

/-- What is checked and read for a request. -/
def reading (request : Request) : Except Failure Unit := do
  e.admits settings request
  match request with
  | .pair start stop => e.readingOf settings (start, some stop)
  | .walksFrom start => e.readingOf settings (start, none)
  | .wholeGraph range => e.readingTasks settings (e.endsFrom settings) (e.startsOf range)
  | .pairs list => e.readingTasks settings (e.endsOfPair settings) list

end

theorem startNodes_eq_ok {range : Option (NodeId × NodeId)} (h : e.Knows (.wholeGraph range)) :
    e.startNodes range = .ok (e.startsOf range) := by
  cases range with
  | none => rfl
  | some bounds =>
      have hle : bounds.1.index ≤ bounds.2.index := h
      rw [startNodes, if_neg (Nat.not_lt.mpr hle)]
      rfl

theorem eq_startsOf_of_startNodes {range : Option (NodeId × NodeId)} {starts : List NodeId}
    (h : e.startNodes range = .ok starts) : starts = e.startsOf range := by
  cases range with
  | none =>
      cases h
      rfl
  | some bounds =>
      rw [startNodes] at h
      split at h
      · cases h
      · cases h
        rfl

theorem check_eq_ok {g : Network} {node : NodeId} (h : g.contains node = true) :
    g.check node = .ok () := by
  rw [Network.check, if_pos h]

theorem checkPairs_eq_ok {list : List (NodeId × NodeId)} (h : e.Knows (.pairs list)) :
    e.checkPairs list = .ok () := by
  induction list with
  | nil => rfl
  | cons pair rest ih =>
      obtain ⟨hstart, hstop⟩ := h pair List.mem_cons_self
      show (do
        (do e.network.check pair.1; e.network.check pair.2)
        e.checkPairs rest) = _
      rw [check_eq_ok hstart, check_eq_ok hstop]
      exact ih fun p hp => h p (List.mem_cons_of_mem _ hp)

/-! ## The answer -/

theorem accepting_of_sink_eq_none (h : e.sink = none) :
    ∀ sink, e.sink = some sink → ∀ dump, sink.takes dump = .ok () := by
  intro sink hsink
  rw [h] at hsink
  cases hsink

theorem handOut_eq_ok (haccept : ∀ sink, e.sink = some sink → ∀ dump, sink.takes dump = .ok ())
    (ends : Ends) :
    e.handOut settings ends.1 ends.2
        (Std.ExtTreeSet.ofList (e.pathsOf (e.walksBetween settings ends))) =
      .ok (e.dumpsBetween settings ends).toArray := by
  unfold handOut dumpsBetween
  cases hsink : e.sink with
  | none => rfl
  | some sink =>
      cases hstop : ends.2 with
      | none => rfl
      | some stop =>
          dsimp only
          rw [haccept sink hsink]
          rfl

/-- Tasks that each come to the outcome of their ends come to the outcome of all ends. -/
theorem merge_runTasks [LawfulCollector C] {α : Type} {task : α → Except Failure (Outcome C)}
    {ends : α → List Ends} (inputs : List α)
    (htask : ∀ input, task input = ((ends input).forM (e.readingOf settings)).map
      fun _ => e.outcomeOf settings C (ends input)) :
    (do
      let outcomes ← runTasks (fun _ => task) inputs e.reports
      return .merge outcomes : Except Failure (Outcome C)) =
      (e.readingTasks settings ends inputs).map
        fun _ => e.outcomeOf settings C (inputs.flatMap ends) := by
  have hrun : runTasks (fun _ => task) inputs e.reports =
      (runTasks (fun _ input => (ends input).forM (e.readingOf settings)) inputs e.reports).map
        fun _ => (inputs.map ends).map (e.outcomeOf settings C) := by
    rw [List.map_map, ← runTasks_map]
    congr 1
    funext _ input
    exact htask input
  rw [hrun, readingTasks]
  cases runTasks (fun _ input => (ends input).forM (e.readingOf settings)) inputs e.reports with
  | error cause => rfl
  | ok _ =>
      show Except.ok (Outcome.merge _) = Except.ok _
      rw [merge_outcomeOf, List.flatMap_def]

section

variable [LawfulCollector C]
  (haccept : ∀ sink, e.sink = some sink → ∀ dump, sink.takes dump = .ok ())
include haccept

theorem searchFrom_eq_reading (start : NodeId) (stop : Option NodeId) :
    e.searchFrom settings start stop =
      (e.readingOf settings (start, stop)).map
        fun _ => e.outcomeOf settings C [(start, stop)] := by
  have hrun := Search.run_eq_reading (C := C) (e.search settings stop) start
    (Sampling.pairSeed e.seed start (stop.getD start))
  have hpaths := pathsOf_walksBetween e settings (start, stop)
  have hnetwork : (e.search settings stop).network = e.network := rfl
  rw [hnetwork, ← hpaths] at hrun
  rw [searchFrom, hrun, readingOf]
  cases (e.search settings stop).reading start _ with
  | error failure => rfl
  | ok _ =>
      show (do
        let dumps ← liftM
          (e.handOut settings start stop (Collector.pathSet (Collector.ofPaths C _)))
        pure _ : Except Failure (Outcome C)) = _
      rw [LawfulCollector.pathSet_ofPaths, handOut_eq_ok haccept (start, stop)]
      simp only [outcomeOf, walksAmong, walksBetween, List.flatMap_singleton, List.length_map,
        List.length_singleton]
      rfl

theorem searchNeighbors_eq_reading (start : NodeId) :
    e.searchNeighbors settings start =
      ((e.endsFrom settings start).forM (e.readingOf settings)).map
        fun _ => e.outcomeOf settings C (e.endsFrom settings start) := by
  -- The accumulator is the outcome of the ends searched so far.
  have hfold : ∀ (stops : List NodeId) (xs : List Ends),
      stops.foldlM (fun outcome stop =>
          return outcome.absorb (← e.searchFrom settings start (some stop)))
          (e.outcomeOf settings C xs) =
        (((stops.map fun stop => (start, some stop)).forM (e.readingOf settings)).map
          fun _ => e.outcomeOf settings C (xs ++ stops.map fun stop => (start, some stop))) := by
    intro stops
    induction stops with
    | nil => intro xs; simp [pure, Except.pure, Except.map]
    | cons stop rest ih =>
        intro xs
        rw [List.foldlM_cons, searchFrom_eq_reading haccept, List.map_cons, List.forM_eq_forM,
          List.forM_cons]
        cases e.readingOf settings (start, some stop) with
        | error failure => rfl
        | ok _ =>
            show List.foldlM _ ((e.outcomeOf settings C xs).absorb _) rest =
              Except.map _ (List.forM _ _)
            rw [absorb_outcomeOf, ih, List.append_assoc]
            rfl
  exact hfold _ []

theorem searchPair_eq_reading (pair : NodeId × NodeId) :
    e.searchPair settings pair.1 pair.2 =
      ((e.endsOfPair settings pair).forM (e.readingOf settings)).map
        fun _ => e.outcomeOf settings C (e.endsOfPair settings pair) := by
  rw [searchPair, endsOfPair]
  split
  · rw [searchFrom_eq_reading haccept, List.forM_eq_forM, List.forM_cons, List.forM_nil]
    cases e.readingOf settings (pair.1, some pair.2) <;> rfl
  · rfl

/-- A request is answered if it can be read, and then with the outcome of its ends. -/
theorem collect_eq_reading (request : Request) :
    e.collect request settings =
      (e.reading settings request).map
        fun _ => e.outcomeOf settings C (e.endsOf settings request) := by
  rw [collect.eq_def, reading.eq_def, admits.eq_def]
  cases settings.validate with
  | error cause => rfl
  | ok _ =>
      rw [liftM_ok_bind]
      cases request with
      | pair start stop =>
          cases hstart : e.network.check start with
          | error cause =>
              simp only [hstart]
              rfl
          | ok _ =>
              cases hstop : e.network.check stop with
              | error cause =>
                  simp only [hstart, hstop]
                  rfl
              | ok _ =>
                  simp only [hstart, hstop]
                  exact searchFrom_eq_reading haccept start (some stop)
      | walksFrom start =>
          cases hstart : e.network.check start with
          | error cause =>
              simp only [hstart]
              rfl
          | ok _ =>
              simp only [hstart]
              exact searchFrom_eq_reading haccept start none
      | wholeGraph range =>
          cases hstarts : e.startNodes range with
          | error cause =>
              simp only [hstarts]
              rfl
          | ok starts =>
              obtain rfl := eq_startsOf_of_startNodes hstarts
              simp only [hstarts]
              exact merge_runTasks _ fun start => searchNeighbors_eq_reading haccept start
      | pairs list =>
          cases hpairs : e.checkPairs list with
          | error cause =>
              simp only [hpairs]
              rfl
          | ok _ =>
              simp only [hpairs]
              exact merge_runTasks _ fun pair => searchPair_eq_reading haccept pair

end

theorem readingOf_eq_ok {request : Request} (h : e.CanAnswer settings request) {ends : Ends}
    (hstart : e.network.contains ends.1 = true) : e.readingOf settings ends = .ok () := by
  rw [readingOf]
  exact Search.reading_eq_ok (s := e.search settings ends.2) h.room h.readable
    (h.readable.labels_of_contains ends.1 hstart) _

theorem readingTasks_eq_ok {request : Request} (h : e.CanAnswer settings request) {α : Type}
    {ends : α → List Ends} {inputs : List α}
    (hstart : ∀ input ∈ inputs, ∀ pair ∈ ends input, e.network.contains pair.1 = true) :
    e.readingTasks settings ends inputs = .ok () := by
  rw [readingTasks, runTasks_eq_ok fun input hinput =>
    forM_eq_ok fun pair hpair => readingOf_eq_ok h (hstart input hinput pair hpair)]
  rfl

theorem admits_eq_ok {request : Request} (hvalid : settings.validate = .ok ())
    (hknows : e.Knows request) : e.admits settings request = .ok () := by
  rw [admits.eq_def, hvalid]
  cases request with
  | pair start stop =>
      show (e.network.check start >>= fun _ => e.network.check stop) = _
      rw [check_eq_ok hknows.1, check_eq_ok hknows.2]
      rfl
  | walksFrom start => exact check_eq_ok hknows
  | wholeGraph range =>
      show discard (e.startNodes range) = _
      rw [startNodes_eq_ok hknows]
      rfl
  | pairs list => exact checkPairs_eq_ok hknows

theorem reading_eq_ok {request : Request} (h : e.CanAnswer settings request) :
    e.reading settings request = .ok () := by
  have hknows := h.knows
  rw [reading.eq_def, admits_eq_ok h.valid hknows, liftM_ok_bind]
  cases request with
  | pair start stop => exact readingOf_eq_ok h hknows.1
  | walksFrom start => exact readingOf_eq_ok h hknows
  | wholeGraph range =>
      refine readingTasks_eq_ok h fun start hstart pair hpair => ?_
      obtain ⟨stop, -, rfl⟩ := List.mem_map.mp hpair
      exact contains_of_mem_startsOf hstart
  | pairs list =>
      refine readingTasks_eq_ok h fun pair hpair ends hends => ?_
      rw [endsOfPair] at hends
      split at hends
      · rw [List.mem_singleton.mp hends]
        exact (hknows pair hpair).1
      · cases hends

/-- A request that can be answered is answered with the outcome of its ends. -/
theorem collect_eq_outcomeOf [LawfulCollector C] {request : Request}
    (h : e.CanAnswer settings request) :
    e.collect request settings = .ok (e.outcomeOf settings C (e.endsOf settings request)) := by
  rw [collect_eq_reading h.accepting, reading_eq_ok h]
  rfl

/-! ## Occurrences and results

Both answers are read off one list, the walks that the request records. -/

variable (e settings)

/-- The walks that a request records, each with its start node. -/
def walksOf (request : Request) : List (NodeId × List NodeId) :=
  e.walksAmong settings (e.endsOf settings request)

/-- The occurrences that the walks of a request make up. -/
def occurrencesOf (request : Request) : Occurrences where
  tally := Collector.ofPaths PathTally (e.pathsOf (e.walksOf settings request))
  edgeSkip := settings.edgeSkip
  nodeSkip := if request.samplesPairs then settings.nodeSkip else 0.0
  traces := (e.walksOf settings request).length

/-- The result that the walks of a request make up. -/
def resultOf (request : Request) : EnumerationResult :=
  let paths := Collector.ofPaths MetaPathSet (e.pathsOf (e.walksOf settings request))
  { paths := match settings.limit with
      | some limit => if limit < paths.size then paths.truncate limit else paths
      | none => paths
    traces := (e.walksOf settings request).length
    pairs := (e.endsOf settings request).length
    truncated := settings.limit.any (· < paths.size) }

variable {e settings}

section

variable (haccept : ∀ sink, e.sink = some sink → ∀ dump, sink.takes dump = .ok ())
include haccept

theorem occurrences_eq_reading (request : Request) :
    e.occurrences request settings =
      (e.reading settings request).map fun _ => e.occurrencesOf settings request := by
  rw [occurrences, collect_eq_reading haccept]
  cases e.reading settings request <;> rfl

theorem enumerate_eq_reading (request : Request) :
    e.enumerate request settings =
      (e.reading settings request).map fun _ => e.resultOf settings request := by
  rw [enumerate, enumerateWithDumps, collect_eq_reading haccept]
  cases e.reading settings request <;> rfl

end

theorem occurrences_eq_ok {request : Request} (h : e.CanAnswer settings request) :
    e.occurrences request settings = .ok (e.occurrencesOf settings request) := by
  rw [occurrences_eq_reading h.accepting, reading_eq_ok h]
  rfl

theorem enumerate_eq_ok {request : Request} (h : e.CanAnswer settings request) :
    e.enumerate request settings = .ok (e.resultOf settings request) := by
  rw [enumerate_eq_reading h.accepting, reading_eq_ok h]
  rfl

@[simp] theorem observed_occurrencesOf (request : Request) (K : MetaPath) :
    (e.occurrencesOf settings request).observed K =
      (e.pathsOf (e.walksOf settings request)).count K :=
  PathTally.observed_ofPaths _ K

theorem mem_paths_resultOf (hlimit : settings.limit = none) (request : Request) (K : MetaPath) :
    K ∈ (e.resultOf settings request).paths ↔ K ∈ e.pathsOf (e.walksOf settings request) := by
  simp only [resultOf, hlimit]
  exact MetaPathSet.mem_ofPaths

/-! ## Sinks and reports

Where dumps go has no part in what is read and recorded, and neither has the failure that
would be reported. -/

theorem occurrencesOf_reports (reports : Reporting) (request : Request) :
    { e with reports }.occurrencesOf settings request = e.occurrencesOf settings request := by
  cases request <;> rfl

theorem reading_sink (sink : Option Sink) (request : Request) :
    { e with sink }.reading settings request = e.reading settings request := by
  cases request <;> rfl

theorem walksOf_sink (sink : Option Sink) (request : Request) :
    { e with sink }.walksOf settings request = e.walksOf settings request := by
  cases request <;> rfl

theorem endsOf_sink (sink : Option Sink) (request : Request) :
    { e with sink }.endsOf settings request = e.endsOf settings request := by
  cases request <;> rfl

/-- The two answers to a request: how often its meta-paths occur, and which they are when
no limit leaves any out. -/
structure Answers (e : Enumerator) (settings : SearchSettings) (request : Request)
    (o : Occurrences) (r : EnumerationResult) : Prop where
  occurrences : e.occurrences request settings = .ok o
  enumerate : e.enumerate request { settings with limit := none } = .ok r

theorem CanAnswer.answers {request : Request} (h : e.CanAnswer settings request) :
    e.Answers settings request (e.occurrencesOf settings request)
      (e.resultOf { settings with limit := none } request) where
  occurrences := occurrences_eq_ok h
  enumerate := enumerate_eq_ok ⟨h.valid, h.room, h.knows, h.readable, h.accepting⟩

theorem mem_paths_unlimited (request : Request) (K : MetaPath) :
    K ∈ (e.resultOf { settings with limit := none } request).paths ↔
      K ∈ e.pathsOf (e.walksOf settings request) :=
  mem_paths_resultOf rfl request K

end Enumerator

/-- The findings of one run are all among those of another. -/
structure Within (o : Occurrences) (r : EnumerationResult) (o' : Occurrences)
    (r' : EnumerationResult) : Prop where
  keys : ∀ K ∈ o.tally, K ∈ o'.tally
  counts : ∀ K, o.observed K ≤ o'.observed K
  paths : ∀ K ∈ r.paths, K ∈ r'.paths
  traces : o.traces ≤ o'.traces ∧ r.traces ≤ r'.traces
  pairs : r.pairs ≤ r'.pairs

theorem Enumerator.within_of_sublist {e : Enumerator} {few many : SearchSettings}
    {request : Request}
    (hwalks : List.Sublist (e.walksOf few request) (e.walksOf many request))
    (hends : (e.endsOf few request).length ≤ (e.endsOf many request).length) :
    Within (e.occurrencesOf few request) (e.resultOf { few with limit := none } request)
      (e.occurrencesOf many request) (e.resultOf { many with limit := none } request) := by
  have hpaths : List.Sublist (e.pathsOf (e.walksOf few request))
      (e.pathsOf (e.walksOf many request)) := hwalks.flatMap _
  refine ⟨fun K hK => ?_, fun K => ?_, fun K hK => ?_,
    ⟨hwalks.length_le, hwalks.length_le⟩, hends⟩
  · exact PathTally.mem_ofPaths.mpr (hpaths.subset (PathTally.mem_ofPaths.mp hK))
  · rw [observed_occurrencesOf, observed_occurrencesOf]
    exact hpaths.count_le K
  · rw [mem_paths_unlimited] at hK ⊢
    exact hpaths.subset hK

/-! ## A network of two nodes

The second node is listed twice as a neighbor of the first and carries two labels: the
least network in which repetitions count. It can be read, so what is said here of readable
networks is said of something. -/

/-- Two nodes joined by an edge, which the first of them lists twice. -/
def ListedNetwork.twin : ListedNetwork where
  labels := [[⟨0⟩], [⟨1⟩, ⟨2⟩]]
  both := [[⟨1⟩, ⟨1⟩], [⟨0⟩]]
  edgeTypes := [(⟨⟨0⟩, ⟨1⟩⟩, ⟨0⟩)]
  labelCount := 3

theorem ListedNetwork.readable_twin : twin.network.Readable .both where
  edgeType := by
    intro node next hnext
    have hcases : node.index = 0 ∨ node.index = 1 ∨ 2 ≤ node.index := by omega
    rcases hcases with h | h | h
    · obtain rfl : node = ⟨0⟩ := TypedId.index_inj.mp h
      obtain rfl : next = ⟨1⟩ := by simpa using (show next ∈ [⟨1⟩, ⟨1⟩] from hnext)
      exact ⟨_, rfl⟩
    · obtain rfl : node = ⟨1⟩ := TypedId.index_inj.mp h
      obtain rfl : next = ⟨0⟩ := List.mem_singleton.mp hnext
      exact ⟨_, rfl⟩
    · have hnone : twin.both[node.index]? = none := List.getElem?_eq_none h
      have hrow : next ∈ (twin.both[node.index]?).getD [] := hnext
      rw [hnone] at hrow
      cases hrow
  labels_of_contains := fun node _ => ⟨_, rfl⟩
  labels_of_mem := fun node next _ => ⟨_, rfl⟩

end Hetnet
