import Mathlib
import Hetnet.Workers

/-!
# What a run makes of its tasks

The results of the tasks of a run are a list, and so are the failures in it, whichever of
them is reported. If there is no failure the outputs are returned, and a `Reporting` is not even
asked (`Reporting.collect_eq_ok_iff`). If there are some, it chooses, and this is all that two
runs of the same tasks can differ in (`Reporting.collect_cases`). A single failure leaves no choice.

What is said of a run that succeeds therefore holds for every reporting (`runTasks_eq_ok_iff`).
What is said of the failure that comes out of a run holds for a given one: tasks that fail alike
fail alike as a run (`runTasks_map`), and the lowest failure is the first one
(`runTasks_eq_error`). No failure of a task is out of reach (`exists_runTasks_eq_error`).
-/

namespace Hetnet

/-! ## How a computation fails -/

section

variable {ε ε' α β : Type}

theorem failure?_eq_none {result : Except ε β} :
    failure? result = none ↔ ∃ b, result = .ok b := by
  cases result <;> simp [failure?]

theorem failure?_eq_some {result : Except ε β} {failure : ε} :
    failure? result = some failure ↔ result = .error failure := by
  cases result <;> simp [failure?]

theorem failure?_map (result : Except ε α) (f : α → β) :
    failure? (result.map f) = failure? result := by
  cases result <;> rfl

theorem failure?_mapError (result : Except ε β) (f : ε → ε') :
    failure? (result.mapError f) = (failure? result).map f := by
  cases result <;> rfl

end

/-! ## Results -/

namespace Reporting

theorem choose_nil (reports : Reporting) (first : Error) : reports.choose first [] = first :=
  List.mem_singleton.mp (reports.choose_mem first [])

/-- The failing task with the highest index is reported. -/
def highest : Reporting := ⟨fun first others => (first :: others).getLast (List.cons_ne_nil _ _),
  fun _ _ => List.getLast_mem _⟩

variable {β : Type} {results : List (Except Error β)} {reports : Reporting}

theorem collect_map_ok (reports : Reporting) (outputs : List β) :
    reports.collect (outputs.map .ok) = .ok outputs := by
  have hfailures : (outputs.map .ok : List (Except Error β)).filterMap failure? = [] := by
    simp [failure?]
  have houtputs : (outputs.map .ok : List (Except Error β)).filterMap Except.toOption =
      outputs := by
    simp [Function.comp_def, Except.toOption]
  rw [collect, hfailures, houtputs]

theorem eq_map_ok_of_failures (h : results.filterMap failure? = []) :
    ∃ outputs : List β, results = outputs.map .ok := by
  induction results with
  | nil => exact ⟨[], rfl⟩
  | cons result rest ih =>
      cases result with
      | error error => cases h
      | ok output =>
          obtain ⟨outputs, rfl⟩ := ih h
          exact ⟨output :: outputs, rfl⟩

theorem collect_of_failures {first : Error} {others : List Error}
    (h : results.filterMap failure? = first :: others) (reports : Reporting) :
    reports.collect results = .error (reports.choose first others) := by
  rw [collect, h]

/-- Results without a failure are the outputs for every reporting, and out of the failures each
reporting makes its choice. -/
theorem collect_cases (results : List (Except Error β)) :
    (∃ outputs : List β, ∀ reports : Reporting, reports.collect results = .ok outputs) ∨
      ∃ first others, results.filterMap failure? = first :: others ∧
        ∀ reports : Reporting, reports.collect results = .error (reports.choose first others) := by
  cases h : results.filterMap failure? with
  | nil =>
      obtain ⟨outputs, rfl⟩ := eq_map_ok_of_failures h
      exact Or.inl ⟨outputs, fun reports => collect_map_ok reports outputs⟩
  | cons first others => exact Or.inr ⟨first, others, rfl, collect_of_failures h⟩

/-- The lowest failure is the one that comes first. -/
theorem lowest_collect {failure : Error} (h : results.findSome? failure? = some failure) :
    lowest.collect results = .error failure := by
  rw [← List.head?_filterMap] at h
  obtain ⟨others, hothers⟩ := List.head?_eq_some_iff.mp h
  exact collect_of_failures hothers lowest

theorem collect_eq_ok_iff {outputs : List β} :
    reports.collect results = .ok outputs ↔ results = outputs.map .ok := by
  refine ⟨fun hok => ?_, fun h => h ▸ collect_map_ok reports outputs⟩
  cases h : results.filterMap failure? with
  | nil =>
      obtain ⟨others, rfl⟩ := eq_map_ok_of_failures h
      rw [collect_map_ok, Except.ok.injEq] at hok
      rw [hok]
  | cons first others =>
      rw [collect_of_failures h] at hok
      cases hok

end Reporting

/-! ## Runs -/

section

variable {α β γ : Type} {task : α → Except Failure β} {inputs : List α} {outputs : List β}
  {reports : Reporting}

/-- A run that succeeds would have done so whatever it had to report otherwise. -/
theorem runTasks_eq_ok_iff {other : Reporting} :
    runTasks (fun _ => task) inputs reports = .ok outputs ↔
      runTasks (fun _ => task) inputs other = .ok outputs :=
  Reporting.collect_eq_ok_iff.trans Reporting.collect_eq_ok_iff.symm

theorem taskResults_eq_map_ok {output : α → β}
    (h : ∀ input ∈ inputs, task input = .ok (output input)) :
    taskResults (fun _ => task) inputs = (inputs.map output).map .ok := by
  have hzip : ∀ entry ∈ inputs.zipIdx,
      (task entry.1).mapError (Failure.inTask entry.2) = .ok (output entry.1) := by
    intro entry hentry
    rw [h entry.1 (List.fst_mem_of_mem_zipIdx hentry)]
    rfl
  rw [taskResults, List.map_congr_left hzip, List.map_map, ← List.zipIdx_map_fst 0 inputs,
    List.map_map, List.zipIdx_map_fst]
  rfl

/-- A run in which every task succeeds brings back every output in its place. -/
theorem runTasks_eq_ok {output : α → β}
    (h : ∀ input ∈ inputs, task input = .ok (output input)) :
    runTasks (fun _ => task) inputs reports = .ok (inputs.map output) :=
  Reporting.collect_eq_ok_iff.mpr (taskResults_eq_map_ok h)

theorem ok_of_taskResults (h : taskResults (fun _ => task) inputs = outputs.map .ok) :
    ∀ input ∈ inputs, ∃ output, task input = .ok output := by
  intro input hinput
  obtain ⟨index, hindex⟩ := List.mem_iff_getElem?.mp hinput
  have hmem : (task input).mapError (Failure.inTask index) ∈ taskResults (fun _ => task) inputs :=
    List.mem_map.mpr ⟨(input, index), List.mk_mem_zipIdx_iff_getElem?.mpr hindex, rfl⟩
  rw [h] at hmem
  obtain ⟨output, -, houtput⟩ := List.mem_map.mp hmem
  cases htask : task input with
  | ok output => exact ⟨output, rfl⟩
  | error failure =>
      rw [htask] at houtput
      cases houtput

theorem ok_of_runTasks (h : runTasks (fun _ => task) inputs reports = .ok outputs) :
    ∀ input ∈ inputs, ∃ output, task input = .ok output :=
  ok_of_taskResults (Reporting.collect_eq_ok_iff.mp h)

theorem failure?_of_mem_taskResults (h : ∀ input ∈ inputs, ∃ output, task input = .ok output)
    {result : Except Error β} (hresult : result ∈ taskResults (fun _ => task) inputs) :
    failure? result = none := by
  obtain ⟨⟨input, index⟩, hentry, rfl⟩ := List.mem_map.mp hresult
  obtain ⟨output, houtput⟩ := h input (List.fst_mem_of_mem_zipIdx hentry)
  show failure? ((task input).mapError (Failure.inTask index)) = none
  rw [houtput]
  rfl

/-- A run succeeds exactly if every task does. -/
theorem exists_runTasks_eq_ok_iff :
    (∃ outputs, runTasks (fun _ => task) inputs reports = .ok outputs) ↔
      ∀ input ∈ inputs, ∃ output, task input = .ok output := by
  refine ⟨fun h => ok_of_runTasks h.choose_spec, fun h => ?_⟩
  have hnone := List.filterMap_eq_nil_iff.mpr fun _ => failure?_of_mem_taskResults h
  obtain ⟨outputs, houtputs⟩ := Reporting.eq_map_ok_of_failures hnone
  exact ⟨outputs, Reporting.collect_eq_ok_iff.mpr houtputs⟩

/-- Tasks that succeed in the place of others do so in a run. -/
theorem runTasks_eq_ok_of_imp {other : α → Except Failure β}
    (himp : ∀ input output, task input = .ok output → other input = .ok output)
    (h : runTasks (fun _ => task) inputs reports = .ok outputs) :
    runTasks (fun _ => other) inputs reports = .ok outputs := by
  have hresults : taskResults (fun _ => other) inputs = taskResults (fun _ => task) inputs := by
    refine List.map_congr_left fun entry hentry => ?_
    obtain ⟨output, houtput⟩ := ok_of_runTasks h entry.1 (List.fst_mem_of_mem_zipIdx hentry)
    dsimp only
    rw [houtput, himp _ _ houtput]
  rw [runTasks, hresults]
  exact h

/-- Tasks that fail alike are alike in the failures of their runs. -/
theorem failures_taskResults_congr {other : α → Except Failure γ}
    (h : ∀ input ∈ inputs, failure? (task input) = failure? (other input)) :
    (taskResults (fun _ => task) inputs).filterMap failure? =
      (taskResults (fun _ => other) inputs).filterMap failure? := by
  rw [taskResults, taskResults, List.filterMap_map, List.filterMap_map]
  refine List.filterMap_congr fun entry hentry => ?_
  simp only [Function.comp_apply, failure?_mapError,
    h entry.1 (List.fst_mem_of_mem_zipIdx hentry)]

/-- The failures of a run are those of its tasks, whatever the outputs are made of. -/
theorem runTasks_map (task : α → Except Failure Unit) (output : α → β) (inputs : List α) :
    runTasks (fun _ input => (task input).map fun _ => output input) inputs reports =
      (runTasks (fun _ => task) inputs reports).map fun _ => inputs.map output := by
  have hfailures : (taskResults (fun _ input => (task input).map fun _ => output input)
        inputs).filterMap failure? = (taskResults (fun _ => task) inputs).filterMap failure? :=
    failures_taskResults_congr fun input _ => failure?_map (task input) _
  rw [runTasks, runTasks]
  cases h : (taskResults (fun _ => task) inputs).filterMap failure? with
  | cons first others =>
      rw [Reporting.collect_of_failures h, Reporting.collect_of_failures (hfailures.trans h)]
      rfl
  | nil =>
      obtain ⟨units, hunits⟩ := Reporting.eq_map_ok_of_failures h
      have hok : ∀ input ∈ inputs,
          ((task input).map fun _ => output input) = .ok (output input) := by
        intro input hinput
        obtain ⟨_, htask⟩ := ok_of_taskResults hunits input hinput
        rw [htask]
        rfl
      rw [hunits, Reporting.collect_map_ok, taskResults_eq_map_ok hok, Reporting.collect_map_ok]
      rfl

/-- What a run reports is the failure of one of its tasks. -/
theorem exists_of_runTasks_eq_error {error : Error}
    (h : runTasks (fun _ => task) inputs reports = .error error) :
    ∃ index input failure, inputs[index]? = some input ∧ task input = .error failure ∧
      error = failure.inTask index := by
  obtain ⟨outputs, hok⟩ | ⟨first, others, hfailures, hfails⟩ :=
    Reporting.collect_cases (taskResults (fun _ => task) inputs)
  · rw [runTasks, hok] at h
    cases h
  · rw [runTasks, hfails] at h
    cases h
    have hmem := hfailures ▸ reports.choose_mem first others
    obtain ⟨result, hresult, hfailure⟩ := List.mem_filterMap.mp hmem
    obtain ⟨⟨input, index⟩, hentry, rfl⟩ := List.mem_map.mp hresult
    replace hfailure : failure? ((task input).mapError (Failure.inTask index)) = some _ := hfailure
    rw [failure?_mapError] at hfailure
    obtain ⟨failure, hcause, heq⟩ := Option.map_eq_some_iff.mp hfailure
    exact ⟨index, input, failure, List.mk_mem_zipIdx_iff_getElem?.mp hentry,
      failure?_eq_some.mp hcause, heq.symm⟩

/-- Every failure of a task is reported by some reporting. -/
theorem exists_runTasks_eq_error {index : Nat} {input : α} {failure : Failure}
    (hinput : inputs[index]? = some input) (hfails : task input = .error failure) :
    ∃ reports, runTasks (fun _ => task) inputs reports = .error (failure.inTask index) := by
  have hmem : failure.inTask index ∈
      (taskResults (fun _ => task) inputs).filterMap failure? := by
    refine List.mem_filterMap.mpr ⟨_, List.mem_map.mpr
      ⟨(input, index), List.mk_mem_zipIdx_iff_getElem?.mpr hinput, rfl⟩, ?_⟩
    show failure? ((task input).mapError (Failure.inTask index)) = _
    rw [hfails]
    rfl
  cases hfailures : (taskResults (fun _ => task) inputs).filterMap failure? with
  | nil =>
      rw [hfailures] at hmem
      cases hmem
  | cons first others =>
      rw [hfailures] at hmem
      let reports : Reporting :=
        ⟨fun first others => if failure.inTask index ∈ first :: others then failure.inTask index
          else first, fun first others => by
            split
            · assumption
            · exact List.mem_cons_self⟩
      exact ⟨reports, (Reporting.collect_of_failures hfailures reports).trans
        (congrArg Except.error (if_pos hmem))⟩

/-- The lowest failure is the one of the first task that fails. -/
theorem runTasks_eq_error {before after : List α} {input : α} {failure : Failure}
    (hbefore : ∀ earlier ∈ before, ∃ output, task earlier = .ok output)
    (hfails : task input = .error failure) :
    runTasks (fun _ => task) (before ++ input :: after) =
      .error (failure.inTask before.length) := by
  have hnone := List.findSome?_eq_none_iff.mpr fun _ => failure?_of_mem_taskResults hbefore
  refine Reporting.lowest_collect ?_
  rw [taskResults, List.zipIdx_append, List.map_append, List.findSome?_append]
  show ((taskResults (fun _ => task) before).findSome? failure?).or _ = _
  rw [hnone, Option.none_or, List.zipIdx_cons, List.map_cons, Nat.zero_add]
  dsimp only
  rw [hfails]
  rfl

end

end Hetnet
