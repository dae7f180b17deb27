import Mathlib
import Hetnet.Network.Listed
import Hetnet.Proofs.Scans

/-!
# The failure that a request reports

A request that samples pairs cuts its searches into tasks, and each task makes its searches
one after the other. Any of them may fail, in the network or at the sink.

`failure?` forgets what a computation brings back. Seen through it a task is a `findSome?`
over its searches, because a loop over searches adds to its outcome and has no failure of
its own. A run reports some task in which this finds a failure (`failsIn_of_runTasks`), and if it
reports the lowest failure, the first such task (`runTasks_of_firstFailure`). The outcomes and how
they are merged do not occur in the argument.

The two nodes of a pair are checked when the pair is requested alone, and a task does not
check them again. So the neighbors of a node have to be nodes for the two to agree.
-/

namespace Hetnet

/-! ## Loops over searches -/

section

variable {α β γ : Type}

theorem failure?_bind {first : Except Failure β} {rest : β → Except Failure γ}
    (h : ∀ b, failure? (rest b) = none) : failure? (first >>= rest) = failure? first := by
  cases first with
  | error failure => rfl
  | ok b => exact h b

theorem failure?_liftM (result : Except Error β) :
    failure? (liftM result : Except Failure β) = (failure? result).map Failure.error := by
  cases result <;> rfl

theorem failure?_foldlM (search : α → Except Failure β) (add : γ → β → γ) (list : List α)
    (init : γ) :
    failure? (list.foldlM (fun acc a => return add acc (← search a)) init) =
      list.findSome? fun a => failure? (search a) := by
  induction list generalizing init with
  | nil => rfl
  | cons a rest ih =>
      rw [List.foldlM_cons, List.findSome?_cons]
      cases search a with
      | error failure => rfl
      | ok b => exact ih (add init b)

theorem findSome?_congr {f g : α → Option β} {list : List α} (h : ∀ a ∈ list, f a = g a) :
    list.findSome? f = list.findSome? g := by
  induction list with
  | nil => rfl
  | cons a rest ih =>
      rw [List.findSome?_cons, List.findSome?_cons, h a List.mem_cons_self,
        ih fun b hb => h b (List.mem_cons_of_mem _ hb)]

variable (search : α → Except Failure β)

/-- Every search of every task succeeds. -/
def AllSucceed (tasks : List (List α)) : Prop := ∀ task ∈ tasks, ∀ a ∈ task, ∃ b, search a = .ok b

/-- The first failing search of the first task that has one, with the index of the task. -/
structure FirstFailure (tasks : List (List α)) (index : Nat) (a : α) (cause : Failure) : Prop where
  fails : search a = .error cause
  first : ∃ before earlier later after, tasks = before ++ (earlier ++ a :: later) :: after ∧
    before.length = index ∧ AllSucceed search before ∧ ∀ b ∈ earlier, ∃ r, search b = .ok r

/-- The first failing search of a task, with the index of the task. -/
structure FailsIn (tasks : List (List α)) (index : Nat) (a : α) (cause : Failure) : Prop where
  fails : search a = .error cause
  first : ∃ earlier later, tasks[index]? = some (earlier ++ a :: later) ∧
    ∀ b ∈ earlier, ∃ r, search b = .ok r

variable {search} {tasks : List (List α)}

theorem exists_firstFailure (h : ¬ AllSucceed search tasks) :
    ∃ index a cause, FirstFailure search tasks index a cause := by
  have hsome : tasks.findSome? (fun task => task.findSome? fun a => failure? (search a)) ≠
      none := by
    simpa only [ne_eq, List.findSome?_eq_none_iff, failure?_eq_none, AllSucceed] using h
  obtain ⟨cause, hcause⟩ := Option.ne_none_iff_exists'.mp hsome
  obtain ⟨before, task, after, rfl, htask, hbefore⟩ := List.findSome?_eq_some_iff.mp hcause
  obtain ⟨earlier, a, later, rfl, ha, hearlier⟩ := List.findSome?_eq_some_iff.mp htask
  simp only [List.findSome?_eq_none_iff, failure?_eq_none] at hbefore hearlier
  exact ⟨before.length, a, cause, failure?_eq_some.mp ha, before, earlier, later, after, rfl, rfl,
    hbefore, hearlier⟩

/-! ## Runs of tasks that make searches -/

variable {δ : Type} {searches : δ → List α} {task : δ → Except Failure γ} {inputs : List δ}
  {reports : Reporting}

section

variable (htask : ∀ input ∈ inputs,
  failure? (task input) = (searches input).findSome? fun a => failure? (search a))
include htask

theorem exists_task_eq_ok_iff {input : δ} (hinput : input ∈ inputs) :
    (∃ outcome, task input = .ok outcome) ↔ ∀ a ∈ searches input, ∃ b, search a = .ok b := by
  rw [← failure?_eq_none, htask input hinput, List.findSome?_eq_none_iff]
  simp only [failure?_eq_none]

theorem exists_runTasks_eq_ok_iff_allSucceed :
    (∃ outcomes, runTasks (fun _ => task) inputs reports = .ok outcomes) ↔
      AllSucceed search (inputs.map searches) := by
  rw [exists_runTasks_eq_ok_iff, AllSucceed, List.forall_mem_map]
  exact forall₂_congr fun _ hinput => exists_task_eq_ok_iff htask hinput

theorem runTasks_of_firstFailure {index : Nat} {a : α} {cause : Failure}
    (h : FirstFailure search (inputs.map searches) index a cause) :
    runTasks (fun _ => task) inputs = .error (cause.inTask index) := by
  obtain ⟨before, earlier, later, after, hsplit, rfl, hbefore, hearlier⟩ := h.first
  obtain ⟨before, rest, rfl, rfl, hrest⟩ := List.map_eq_append_iff.mp hsplit
  obtain ⟨input, after, rfl, hinput, -⟩ := List.map_eq_cons_iff.mp hrest
  have hfails : task input = .error cause := by
    rw [← failure?_eq_some, htask input (by simp), hinput, List.findSome?_eq_some_iff]
    exact ⟨earlier, a, later, rfl, failure?_eq_some.mpr h.fails,
      fun b hb => failure?_eq_none.mpr (hearlier b hb)⟩
  rw [List.length_map]
  exact runTasks_eq_error (fun other hother => (exists_task_eq_ok_iff htask
    (List.mem_append_left _ hother)).mpr (hbefore _ (List.mem_map_of_mem hother))) hfails

/-- What a run reports is the failure of the first failing search of one of its tasks. -/
theorem failsIn_of_runTasks {error : Error}
    (h : runTasks (fun _ => task) inputs reports = .error error) :
    ∃ index a cause, FailsIn search (inputs.map searches) index a cause ∧
      error = cause.inTask index := by
  obtain ⟨index, input, cause, hinput, hfails, rfl⟩ := exists_of_runTasks_eq_error h
  rw [← failure?_eq_some, htask input (List.mem_of_getElem? hinput),
    List.findSome?_eq_some_iff] at hfails
  obtain ⟨earlier, a, later, hsearches, ha, hearlier⟩ := hfails
  refine ⟨index, a, cause, ⟨failure?_eq_some.mp ha, earlier, later, ?_,
    fun b hb => failure?_eq_none.mp (hearlier b hb)⟩, rfl⟩
  rw [List.getElem?_map, hinput, ← hsearches]
  rfl

end

end

/-! ## Requests that sample pairs -/

namespace Enumerator

variable (e : Enumerator) (settings : SearchSettings)

/-- The pairs that the tasks of a request search. There is a task for each start node of the
range or for each listed pair, also if no pair of it is kept. -/
def keptPairs : Request → List (List (NodeId × NodeId))
  | .wholeGraph range => (e.startsOf range).map fun start =>
      ((e.network.neighbors start e.direction).filter (e.keeps settings start)).map (start, ·)
  | .pairs list => list.map fun pair => [pair].filter fun pair => e.keeps settings pair.1 pair.2
  | .pair _ _ | .walksFrom _ => []

/-- The answer to the request for a pair alone. -/
def enumeratePair (pair : NodeId × NodeId) : Except Failure EnumerationResult :=
  e.enumerate (.pair pair.1 pair.2) settings

/-- A request that succeeds if the search of every kept pair does, and otherwise reports the
first failing search of a task: of whichever failing task, and of the first one if the lowest
failure is reported. -/
structure ReportsFirst (request : Request) : Prop where
  ok_iff : (∃ r, e.enumerate request settings = .ok r) ↔
    AllSucceed (e.enumeratePair settings) (e.keptPairs settings request)
  exists_first : ¬ AllSucceed (e.enumeratePair settings) (e.keptPairs settings request) →
    ∃ index pair cause,
      FirstFailure (e.enumeratePair settings) (e.keptPairs settings request) index pair cause
  error_eq : e.reports = .lowest → ∀ {index pair cause},
    FirstFailure (e.enumeratePair settings) (e.keptPairs settings request) index pair cause →
      ∃ error, e.enumerate request settings = .error (.error error) ∧
        error = .workerFailed index cause.cause ∧ error.rootCause = cause.cause.rootCause
  failsIn : ∀ failure, e.enumerate request settings = .error failure → ∃ index pair cause,
    FailsIn (e.enumeratePair settings) (e.keptPairs settings request) index pair cause ∧
      failure = .error (.workerFailed index cause.cause)
  keeps : ∀ task ∈ e.keptPairs settings request, ∀ pair ∈ task,
    e.keeps settings pair.1 pair.2 = true

variable {e settings}

theorem failure?_enumerate (request : Request) :
    failure? (e.enumerate request settings) =
      failure? (e.collect (C := MetaPathSet) request settings) := by
  rw [enumerate, enumerateWithDumps]
  cases e.collect (C := MetaPathSet) request settings <;> rfl

theorem failure?_enumeratePair (hvalid : settings.validate = .ok ()) {start stop : NodeId}
    (hstart : e.network.contains start = true) (hstop : e.network.contains stop = true) :
    failure? (e.enumeratePair settings (start, stop)) =
      failure? (e.searchFrom (C := MetaPathSet) settings start (some stop)) := by
  rw [enumeratePair, failure?_enumerate, collect.eq_def, hvalid]
  dsimp only
  rw [check_eq_ok hstart, check_eq_ok hstop]
  rfl

section

variable (hvalid : settings.validate = .ok ())
  (hneighbors : ∀ node, e.network.contains node = true →
    ∀ next ∈ e.network.neighbors node e.direction, e.network.contains next = true)
include hvalid

include hneighbors in
theorem failure?_searchNeighbors {start : NodeId} (hstart : e.network.contains start = true) :
    failure? (e.searchNeighbors (C := MetaPathSet) settings start) =
      (((e.network.neighbors start e.direction).filter (e.keeps settings start)).map
        (start, ·)).findSome? fun pair => failure? (e.enumeratePair settings pair) := by
  rw [searchNeighbors, failure?_foldlM, List.findSome?_map]
  refine findSome?_congr fun stop hstop => ?_
  exact (failure?_enumeratePair hvalid hstart
    (hneighbors start hstart stop (List.mem_of_mem_filter hstop))).symm

theorem failure?_searchPair {pair : NodeId × NodeId} (hstart : e.network.contains pair.1 = true)
    (hstop : e.network.contains pair.2 = true) :
    failure? (e.searchPair (C := MetaPathSet) settings pair.1 pair.2) =
      ([pair].filter fun pair => e.keeps settings pair.1 pair.2).findSome? fun pair =>
        failure? (e.enumeratePair settings pair) := by
  rw [searchPair, List.filter_singleton]
  split
  · next hkeeps =>
      rw [hkeeps]
      simp [failure?_enumeratePair hvalid hstart hstop]
  · next hskips =>
      simp [hskips]
      rfl

end

theorem keeps_of_mem_keptPairs {request : Request} {task : List (NodeId × NodeId)}
    (htask : task ∈ e.keptPairs settings request) {pair : NodeId × NodeId} (hpair : pair ∈ task) :
    e.keeps settings pair.1 pair.2 = true := by
  cases request with
  | pair start stop => cases htask
  | walksFrom start => cases htask
  | wholeGraph range =>
      obtain ⟨start, -, rfl⟩ := List.mem_map.mp htask
      obtain ⟨stop, hstop, rfl⟩ := List.mem_map.mp hpair
      exact List.of_mem_filter hstop
  | pairs list =>
      obtain ⟨other, -, rfl⟩ := List.mem_map.mp htask
      exact (List.mem_filter.mp hpair).2

/-- What is said of the run of the tasks holds of the request. -/
theorem reportsFirst_of_run {δ : Type} {request : Request} {inputs : List δ}
    {searches : δ → List (NodeId × NodeId)} {task : δ → Except Failure (Outcome MetaPathSet)}
    (hcollect : e.collect request settings = do
      let outcomes ← runTasks (fun _ => task) inputs e.reports
      return .merge outcomes)
    (hkept : e.keptPairs settings request = inputs.map searches)
    (htask : ∀ input ∈ inputs, failure? (task input) =
      (searches input).findSome? fun pair => failure? (e.enumeratePair settings pair)) :
    e.ReportsFirst settings request := by
  have hfailure : failure? (e.enumerate request settings) =
      failure? (liftM (runTasks (fun _ => task) inputs e.reports) : Except Failure _) := by
    rw [failure?_enumerate, hcollect]
    exact failure?_bind fun _ => rfl
  rw [failure?_liftM] at hfailure
  refine ⟨?_, exists_firstFailure, fun hlowest _ _ _ hfirst => ?_, fun failure hfails => ?_,
    fun _ hmem _ hpair => keeps_of_mem_keptPairs hmem hpair⟩
  · rw [← failure?_eq_none, hfailure, Option.map_eq_none_iff, failure?_eq_none, hkept]
    exact exists_runTasks_eq_ok_iff_allSucceed htask
  · refine ⟨_, ?_, rfl, rfl⟩
    rw [← failure?_eq_some, hfailure, hlowest, runTasks_of_firstFailure htask (hkept ▸ hfirst),
      Failure.inTask_eq]
    rfl
  · rw [← failure?_eq_some, hfailure] at hfails
    obtain ⟨error, hrun, rfl⟩ := Option.map_eq_some_iff.mp hfails
    obtain ⟨index, pair, cause, hfirst, rfl⟩ :=
      failsIn_of_runTasks htask (failure?_eq_some.mp hrun)
    exact ⟨index, pair, cause, hkept ▸ hfirst, congrArg _ (Failure.inTask_eq cause index)⟩

/-- Whatever the network and the sink refuse, a request that samples pairs succeeds if the search
of every pair that it keeps does. Otherwise it reports the first failure of a task, and this is
the first failure of all if the lowest is reported. -/
theorem reportsFirst {request : Request} (hvalid : settings.validate = .ok ())
    (hneighbors : ∀ node, e.network.contains node = true →
      ∀ next ∈ e.network.neighbors node e.direction, e.network.contains next = true)
    (hsamples : request.samplesPairs = true) (hknows : e.Knows request) :
    e.ReportsFirst settings request := by
  cases request with
  | pair start stop => cases hsamples
  | walksFrom start => cases hsamples
  | wholeGraph range =>
      refine reportsFirst_of_run ?_ rfl fun start hstart =>
        failure?_searchNeighbors hvalid hneighbors (contains_of_mem_startsOf hstart)
      rw [collect.eq_def, hvalid]
      dsimp only
      rw [startNodes_eq_ok hknows]
      rfl
  | pairs list =>
      have htask := fun pair hpair =>
        failure?_searchPair hvalid (hknows pair hpair).1 (hknows pair hpair).2
      refine reportsFirst_of_run ?_ rfl htask
      rw [collect.eq_def, hvalid]
      dsimp only
      rw [checkPairs_eq_ok hknows]
      rfl

end Enumerator

/-- Four nodes in a row. -/
def ListedNetwork.row : ListedNetwork where
  labels := [[⟨0⟩], [⟨0⟩], [⟨0⟩], [⟨0⟩]]
  both := [[⟨1⟩], [⟨0⟩, ⟨2⟩], [⟨1⟩, ⟨3⟩], [⟨2⟩]]
  edgeTypes := [(⟨⟨0⟩, ⟨1⟩⟩, ⟨0⟩), (⟨⟨1⟩, ⟨2⟩⟩, ⟨0⟩), (⟨⟨2⟩, ⟨3⟩⟩, ⟨0⟩)]
  labelCount := 1

theorem ListedNetwork.contains_of_mem_row {node next : NodeId}
    (h : next ∈ row.network.neighbors node .both) : row.network.contains next = true := by
  have hrows : ∀ list ∈ row.both, ∀ next ∈ list, row.network.contains next = true := by decide
  replace h : next ∈ (row.both[node.index]?).getD [] := h
  cases hlist : row.both[node.index]? with
  | none =>
      rw [hlist] at h
      cases h
  | some list =>
      rw [hlist] at h
      exact hrows list (List.mem_of_getElem? hlist) next h

namespace Enumerator

/-- The row with a place for dumps that has no room for those of pairs that end at either of
its ends. -/
def cramped : Enumerator where
  network := ListedNetwork.row.network
  sink := some ⟨fun dump => if dump.stop ∈ [⟨0⟩, ⟨3⟩] then .error (.storage "full") else .ok ()⟩

/-- All start nodes but the first. The second node has a pair that would fail and is
skipped, so the first failure is one of the third node, whose task has the index 1. -/
theorem reportsFirst_cramped :
    let settings : SearchSettings := { maxLength := 1, nodeSkip := 0.25 }
    let request : Request := .wholeGraph (some (⟨1⟩, ⟨9⟩))
    cramped.ReportsFirst settings request ∧
      cramped.enumerate request settings = .error (.error (.workerFailed 1 (.storage "full"))) := by
  intro settings request
  have hreports : cramped.ReportsFirst settings request :=
    reportsFirst (by decide +kernel) (fun _ _ _ hnext => ListedNetwork.contains_of_mem_row hnext)
      rfl (show 1 ≤ 9 by decide)
  have hfound : ∀ pair ∈ [((⟨1⟩ : NodeId), (⟨2⟩ : NodeId)), (⟨2⟩, ⟨1⟩)],
      ∃ r, cramped.enumeratePair settings pair = .ok r := by
    simp only [← failure?_eq_none]
    decide +kernel
  have hfull : cramped.enumeratePair settings (⟨2⟩, ⟨3⟩) = .error (.error (.storage "full")) := by
    rw [← failure?_eq_some]
    decide +kernel
  have hfirst : FirstFailure (cramped.enumeratePair settings) (cramped.keptPairs settings request)
      1 (⟨2⟩, ⟨3⟩) (.error (.storage "full")) := by
    refine ⟨hfull, [[(⟨1⟩, ⟨2⟩)]], [(⟨2⟩, ⟨1⟩)], [], [[(⟨3⟩, ⟨2⟩)]], by decide +kernel, rfl, ?_, ?_⟩
    · simpa [AllSucceed] using hfound (⟨1⟩, ⟨2⟩) (by decide)
    · simpa using hfound (⟨2⟩, ⟨1⟩) (by decide)
  obtain ⟨error, herror, rfl, -⟩ := hreports.error_eq rfl hfirst
  exact ⟨hreports, herror⟩

end Enumerator

end Hetnet
