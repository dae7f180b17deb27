import Mathlib
import Hetnet.Proofs.Keys
import Hetnet.Proofs.Requests
import Hetnet.Proofs.StoredRows

/-!
# Listing and counting tell the same story

A network that cannot be read fails for both answers alike, because what is read for a
request does not depend on the collector (`Enumerator.collect_eq_reading`). When
it can be read, both collectors have been told the same paths. What is left to compare is
what a set and a tally make of one list: the keys of the tally are the members of the set,
in the same order, and its counts add up to the length of the list.

The two answers come from two calls, and if several tasks fail each call reports one of
them. Both calls choose from the same failures (`Enumerator.reading_cases`), so the one
thing that can tell the answers apart is that they choose differently, and for this
two tasks have to fail.

That length is known without looking at a single path. A trace stands for one path for
each choice of a label at every node, so the counts add up to a sum of products over the
recorded walks.
-/

namespace Hetnet

/-! ## What a set and a tally make of a list -/

namespace PathTally

theorem pairwise_keys (tally : PathTally) : tally.keys.Pairwise fun K L => compare K L = .lt :=
  Std.ExtTreeMap.ordered_keys

theorem mem_keys_ofPaths {paths : List MetaPath} {K : MetaPath} :
    K ∈ (Collector.ofPaths PathTally paths).keys ↔ K ∈ paths := by
  rw [Std.ExtTreeMap.mem_keys, mem_ofPaths]

theorem keys_ofPaths (paths : List MetaPath) :
    (Collector.ofPaths PathTally paths).keys = (Collector.ofPaths MetaPathSet paths).toList := by
  refine ext_of_increasing (pairwise_keys _) Std.ExtTreeSet.ordered_toList fun K => ?_
  rw [mem_keys_ofPaths, Std.ExtTreeSet.mem_toList, MetaPathSet.mem_ofPaths]

theorem nodup_keys (tally : PathTally) : tally.keys.Nodup := by
  refine tally.pairwise_keys.imp fun {K L} hlt heq => ?_
  subst heq
  rw [Std.ReflOrd.compare_self] at hlt
  cases hlt

/-- The counts of a tally add up to the number of paths that were recorded. -/
theorem sum_observed_ofPaths (paths : List MetaPath) :
    ((Collector.ofPaths PathTally paths).keys.map
      (Collector.ofPaths PathTally paths).observed).sum = paths.length := by
  have hperm : (Collector.ofPaths PathTally paths).keys.Perm paths.dedup := by
    rw [List.perm_ext_iff_of_nodup (nodup_keys _) paths.nodup_dedup]
    intro K
    rw [mem_keys_ofPaths, List.mem_dedup]
  have hcount : (Collector.ofPaths PathTally paths).observed = fun K => paths.count K :=
    funext (observed_ofPaths paths)
  rw [hcount, (hperm.map _).sum_eq]
  exact List.sum_map_count_dedup_eq_length paths

end PathTally

theorem MetaPathSet.toList_truncate (paths : MetaPathSet) (count : Nat) :
    (paths.truncate count).toList = paths.toList.take count := by
  refine ext_of_increasing Std.ExtTreeSet.ordered_toList
    (Std.ExtTreeSet.ordered_toList.sublist (List.take_sublist _ _)) fun K => ?_
  rw [truncate, Std.ExtTreeSet.mem_toList, Std.ExtTreeSet.mem_ofList, List.contains_iff_mem]

/-! ## The walks of a request that was read -/

namespace Network

variable (g : Network)

/-- How many paths a walk stands for: one for each choice of a label at every node. -/
def choicesAlong (start : NodeId) (walk : List NodeId) : Nat :=
  ((start :: walk).map fun node => (g.labelsOf node).length).prod

theorem map_length_stepsOf (node : NodeId) (walk : List NodeId) :
    (g.stepsOf node walk).map (fun step => step.2.length) =
      walk.map fun next => (g.labelsOf next).length := by
  induction walk generalizing node with
  | nil => rfl
  | cons next rest ih => rw [stepsOf, List.map_cons, List.map_cons, ih]

theorem length_pathsAlong (start : NodeId) (walk : List NodeId) :
    (g.pathsAlong start walk).length = g.choicesAlong start walk := by
  rw [pathsAlong, Trace.length_expand, choicesAlong, List.map_cons, List.prod_cons, traceOf,
    List.map_reverse, List.prod_reverse, map_length_stepsOf]

end Network

theorem ok_of_forM {α ε : Type} {step : α → Except ε Unit} {list : List α}
    (h : list.forM step = .ok ()) : ∀ a ∈ list, step a = .ok () := by
  induction list with
  | nil => exact fun a ha => by cases ha
  | cons a rest ih =>
      obtain ⟨_, hstep, hrest⟩ := ok_of_bind h
      exact List.forall_mem_cons.mpr ⟨hstep, ih hrest⟩

/-- The labels of every node on a recorded walk were read. -/
theorem Search.labels_of_reading {s : Search} {start : NodeId} {seed : UInt64}
    (h : s.reading start seed = .ok ()) {walk : List NodeId}
    (hwalk : walk ∈ s.recorded start seed) :
    ∀ node ∈ start :: walk, s.network.labels node = .ok (s.network.labelsOf node) := by
  obtain ⟨_, -, h⟩ := ok_of_bind h
  obtain ⟨labels, hlabels, h⟩ := ok_of_bind h
  obtain ⟨read, hread, -⟩ := ok_of_bind (ok_of_forM h walk (List.mem_of_mem_filter hwalk))
  refine List.forall_mem_cons.mpr ⟨?_, (Network.steps_of_follow hread).2⟩
  rw [hlabels, Network.labelsOf_of_eq_ok hlabels]

namespace Enumerator

variable {e : Enumerator} {settings : SearchSettings} {request : Request}

theorem readingOf_of_readingTasks {α : Type} {ends : α → List Ends} {inputs : List α}
    (h : e.readingTasks settings ends inputs = .ok ()) :
    ∀ pair ∈ inputs.flatMap ends, e.readingOf settings pair = .ok () := by
  obtain ⟨outputs, hrun, -⟩ := ok_of_bind h
  intro pair hpair
  obtain ⟨input, hinput, hends⟩ := List.mem_flatMap.mp hpair
  obtain ⟨_, htask⟩ := ok_of_runTasks (ok_of_liftM hrun) input hinput
  exact ok_of_forM htask pair hends

/-- A request that was read was read between all of its ends. -/
theorem readingOf_of_reading (h : e.reading settings request = .ok ()) :
    ∀ ends ∈ e.endsOf settings request, e.readingOf settings ends = .ok () := by
  obtain ⟨_, -, h⟩ := ok_of_bind h
  cases request with
  | pair start stop => exact List.forall_mem_singleton.mpr h
  | walksFrom start => exact List.forall_mem_singleton.mpr h
  | wholeGraph range => exact readingOf_of_readingTasks h
  | pairs list => exact readingOf_of_readingTasks h

theorem labels_of_reading (h : e.reading settings request = .ok ()) {start : NodeId}
    {walk : List NodeId} (hwalk : (start, walk) ∈ e.walksOf settings request) :
    ∀ node ∈ start :: walk, e.network.labels node = .ok (e.network.labelsOf node) := by
  obtain ⟨ends, hends, hwalk⟩ := List.mem_flatMap.mp hwalk
  obtain ⟨recorded, hrecorded, heq⟩ := List.mem_map.mp hwalk
  cases heq
  exact Search.labels_of_reading (readingOf_of_reading h ends hends) hrecorded

/-! ## The two answers -/

/-- What the two answers to a request have in common. The keys of the occurrences are the
paths, in the order of their bytes and each counted; a limit takes the first of them
and nothing else; and the counts add up to what the recorded walks stand for. -/
structure SameStory (e : Enumerator) (settings : SearchSettings) (request : Request)
    (r : EnumerationResult) (o : Occurrences) : Prop where
  counted : ∀ K ∈ o.tally, 1 ≤ o.observed K
  ordered : o.tally.keys.Pairwise fun K L => K.bytes < L.bytes
  paths : r.paths.toList = match settings.limit with
    | some limit => o.tally.keys.take (min limit o.tally.keys.length)
    | none => o.tally.keys
  truncated : r.truncated = true ↔
    ∃ limit, settings.limit = some limit ∧ limit < o.tally.keys.length
  traces : r.traces = o.traces ∧ o.traces = (e.walksOf settings request).length
  labels : ∀ start walk, (start, walk) ∈ e.walksOf settings request →
    ∀ node ∈ start :: walk, e.network.labels node = .ok (e.network.labelsOf node)
  total : (o.tally.keys.map o.observed).sum =
    ((e.walksOf settings request).map fun (start, walk) => e.network.choicesAlong start walk).sum

theorem isPlain_of_mem_pathsOf {walks : List (NodeId × List NodeId)} {K : MetaPath}
    (h : K ∈ e.pathsOf walks) : K.IsPlain := by
  obtain ⟨_, -, hK⟩ := List.mem_flatMap.mp h
  exact Trace.isPlain_of_mem_expand hK

theorem length_pathsOf (walks : List (NodeId × List NodeId)) :
    (e.pathsOf walks).length =
      (walks.map fun (start, walk) => e.network.choicesAlong start walk).sum := by
  rw [pathsOf, List.length_flatMap]
  simp only [Network.length_pathsAlong]

theorem size_ofPaths (paths : List MetaPath) :
    (Collector.ofPaths MetaPathSet paths).size =
      (Collector.ofPaths PathTally paths).keys.length := by
  rw [PathTally.keys_ofPaths, Std.ExtTreeSet.length_toList]

theorem sameStory_of_reading (h : e.reading settings request = .ok ()) :
    e.SameStory settings request (e.resultOf settings request)
      (e.occurrencesOf settings request) where
  counted := by
    intro K hK
    rw [observed_occurrencesOf]
    exact List.count_pos_iff.mpr (PathTally.mem_ofPaths.mp hK)
  ordered := by
    refine (PathTally.pairwise_keys _).imp_of_mem fun {K L} hK hL hlt => ?_
    exact MetaPath.bytes_lt_of_compare
      (isPlain_of_mem_pathsOf (PathTally.mem_keys_ofPaths.mp hK))
      (isPlain_of_mem_pathsOf (PathTally.mem_keys_ofPaths.mp hL)) hlt
  paths := by
    rw [resultOf, occurrencesOf]
    cases settings.limit with
    | none => exact (PathTally.keys_ofPaths _).symm
    | some limit =>
        dsimp only
        rw [← List.take_eq_take_min, PathTally.keys_ofPaths, size_ofPaths,
          PathTally.keys_ofPaths]
        split
        · exact MetaPathSet.toList_truncate _ limit
        · next hle => rw [List.take_of_length_le (Nat.not_lt.mp hle)]
  truncated := by
    rw [resultOf, occurrencesOf]
    cases settings.limit with
    | none => simp
    | some limit => simp [size_ofPaths]
  traces := ⟨rfl, rfl⟩
  labels := fun start walk hwalk => labels_of_reading h hwalk
  total := (PathTally.sum_observed_ofPaths _).trans (length_pathsOf _)

/-! ## What is reported -/

/-- The failures of the tasks of a request, in the order of the tasks. -/
def taskFailures (e : Enumerator) (settings : SearchSettings) : Request → List Error
  | .wholeGraph range => (taskResults
      (fun _ start => e.searchNeighbors (C := MetaPathSet) settings start)
      (e.startsOf range)).filterMap failure?
  | .pairs list => (taskResults
      (fun _ pair => e.searchPair (C := MetaPathSet) settings pair.1 pair.2)
      list).filterMap failure?
  | .pair _ _ | .walksFrom _ => []

/-- How two calls fail that may report differently: both for the same reason, unless several
tasks fail and each call reports the one that it chooses from the failures of all tasks. -/
def FailAlike (e : Enumerator) (settings : SearchSettings) (request : Request)
    (other : Reporting) (failure failure' : Failure) : Prop :=
  failure = failure' ∨
    ∃ first second others, e.taskFailures settings request = first :: second :: others ∧
      failure = .error (e.reports.choose first (second :: others)) ∧
      failure' = .error (other.choose first (second :: others))

theorem readingTasks_cases {α : Type} (ends : α → List Ends) (inputs : List α)
    (other : Reporting) :
    e.readingTasks settings ends inputs =
        { e with reports := other }.readingTasks settings ends inputs ∨
      ∃ first second others,
        (taskResults (fun _ input => (ends input).forM (e.readingOf settings))
          inputs).filterMap failure? = first :: second :: others ∧
        e.readingTasks settings ends inputs =
          .error (.error (e.reports.choose first (second :: others))) ∧
        { e with reports := other }.readingTasks settings ends inputs =
          .error (.error (other.choose first (second :: others))) := by
  have hother : { e with reports := other }.readingTasks settings ends inputs =
      discard (liftM (runTasks (fun _ input => (ends input).forM (e.readingOf settings)) inputs
        other) : Except Failure (List Unit)) := rfl
  rw [hother, readingTasks, runTasks, runTasks]
  obtain ⟨outputs, hok⟩ | ⟨first, others, hfailures, hfails⟩ := Reporting.collect_cases
    (taskResults (fun _ input => (ends input).forM (e.readingOf settings)) inputs)
  · exact Or.inl (by rw [hok, hok])
  · rw [hfails, hfails]
    cases others with
    | nil => exact Or.inl (by rw [Reporting.choose_nil, Reporting.choose_nil])
    | cons second others => exact Or.inr ⟨first, second, others, hfailures, rfl, rfl⟩

/-- Two readings of a request fail alike or come to the same. -/
theorem reading_cases (hsink : e.sink = none) (request : Request) (other : Reporting) :
    e.reading settings request = { e with reports := other }.reading settings request ∨
      ∃ first second others, e.taskFailures settings request = first :: second :: others ∧
        e.reading settings request = .error (.error (e.reports.choose first (second :: others))) ∧
        { e with reports := other }.reading settings request =
          .error (.error (other.choose first (second :: others))) := by
  have haccept := accepting_of_sink_eq_none hsink
  have hadmits : { e with reports := other }.admits settings request =
      e.admits settings request := rfl
  rw [reading.eq_def, reading.eq_def, hadmits]
  cases e.admits settings request with
  | error cause => exact Or.inl rfl
  | ok _ =>
      rw [liftM_ok_bind, liftM_ok_bind]
      cases request with
      | pair start stop => exact Or.inl rfl
      | walksFrom start => exact Or.inl rfl
      | wholeGraph range =>
          have hfailures : e.taskFailures settings (.wholeGraph range) = (taskResults
              (fun _ start => (e.endsFrom settings start).forM (e.readingOf settings))
              (e.startsOf range)).filterMap failure? :=
            failures_taskResults_congr fun start _ => by
              rw [searchNeighbors_eq_reading haccept, failure?_map]
          rw [hfailures]
          exact readingTasks_cases (e.endsFrom settings) (e.startsOf range) other
      | pairs list =>
          have hfailures : e.taskFailures settings (.pairs list) = (taskResults
              (fun _ pair => (e.endsOfPair settings pair).forM (e.readingOf settings))
              list).filterMap failure? :=
            failures_taskResults_congr fun pair _ => by
              rw [searchPair_eq_reading haccept, failure?_map]
          rw [hfailures]
          exact readingTasks_cases (e.endsOfPair settings) list other

/-- Two nodes next to each other that no edge type joins, so that both searches between them
fail. The two calls report different ones. -/
example :
    let unjoined : ListedNetwork := { labels := [[], []], both := [[⟨1⟩], [⟨0⟩]] }
    let request : Request := .pairs [(⟨0⟩, ⟨1⟩), (⟨1⟩, ⟨0⟩)]
    failure? (enumerate { network := unjoined.network } request { maxLength := 1 }) =
        some (.error (.workerFailed 0 (.edgeNotFound ⟨0⟩ ⟨1⟩))) ∧
      failure? (occurrences { network := unjoined.network, reports := .highest } request
        { maxLength := 1 }) = some (.error (.workerFailed 1 (.edgeNotFound ⟨1⟩ ⟨0⟩))) := by
  decide +kernel

end Enumerator

end Hetnet
