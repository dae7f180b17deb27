import Mathlib
import Hetnet.Proofs.Keys
import Hetnet.Proofs.Requests

/-!
# A length bound only cuts off

A length bound has no part in what a search draws or where it goes; it only says how far.
So a search with a smaller bound follows the walks of one with a greater bound that are
short enough, in the same order and with the same seeds, and the mode then picks among
them by length. `Enumerator.walksOf_bounded` says both at once.

The walks of one length are therefore the same whichever bound found them, and a run up to a
bound is made up of the runs for each exact length. No path is found for two lengths,
because a key shows how long its walk was.
-/

namespace Hetnet

/-- The same settings with another length bound. -/
def SearchSettings.bounded (s : SearchSettings) (mode : LengthMode) (maxLength : Nat) :
    SearchSettings :=
  { s with maxLength, mode }

namespace LengthMode

theorem accepts_upTo {hops maxLength : Nat} :
    accepts .upTo hops maxLength = true ↔ 1 ≤ hops ∧ hops ≤ maxLength := by
  simp [accepts]

theorem accepts_exact {hops maxLength : Nat} :
    accepts .exact hops maxLength = true ↔ hops = maxLength := by
  simp [accepts]

theorem not_accepts_zero {mode : LengthMode} {maxLength : Nat} (h : maxLength ≠ 0) :
    ¬ mode.accepts 0 maxLength = true := by
  cases mode with
  | upTo => exact fun haccepts => absurd (accepts_upTo.mp haccepts).1 (by decide)
  | exact => exact fun haccepts => h (accepts_exact.mp haccepts).symm

theorem le_of_accepts {mode : LengthMode} {hops maxLength : Nat}
    (h : mode.accepts hops maxLength = true) : hops ≤ maxLength := by
  cases mode with
  | upTo => exact (accepts_upTo.mp h).2
  | exact => exact (accepts_exact.mp h).le

end LengthMode

/-! ## The lengths of walks -/

namespace Search

theorem length_of_mem_walks {s : Search} {remaining : Nat} {node : NodeId} {seed : UInt64}
    {walk : List NodeId} (h : walk ∈ s.walks remaining node seed) :
    1 ≤ walk.length ∧ walk.length ≤ remaining := by
  induction remaining generalizing node seed walk with
  | zero => cases h
  | succ remaining ih =>
      obtain ⟨⟨next, childSeed⟩, -, hwalk⟩ := List.mem_flatMap.mp h
      rcases List.mem_cons.mp hwalk with rfl | hlong
      · simp
      · split at hlong
        · cases hlong
        · obtain ⟨rest, hrest, rfl⟩ := List.mem_map.mp hlong
          have hlength := (ih hrest).2
          rw [List.length_cons]
          omega

/-- The walks that a visit follows do not depend on what is recorded. -/
theorem walks_congr (s : Search) (mode : LengthMode) (maxLength remaining : Nat)
    (node : NodeId) (seed : UInt64) :
    { s with mode, maxLength }.walks remaining node seed = s.walks remaining node seed := by
  induction remaining generalizing node seed with
  | zero => rfl
  | succ remaining ih =>
      rw [walks, walks]
      simp only [ih]
      rfl

/-- A shallower visit follows the short walks of a deeper one. The induction is on the
smaller depth: both visits take the same first steps with the same seeds. -/
theorem walks_eq_filter (s : Search) {few many : Nat} (h : few ≤ many) (node : NodeId)
    (seed : UInt64) :
    s.walks few node seed =
      (s.walks many node seed).filter fun walk => decide (walk.length ≤ few) := by
  induction few generalizing many node seed with
  | zero =>
      refine (List.filter_eq_nil_iff.mpr fun walk hwalk => ?_).symm
      have hlength := (length_of_mem_walks hwalk).1
      rw [decide_eq_true_iff]
      omega
  | succ few ih =>
      obtain ⟨many, rfl⟩ : ∃ m, many = m + 1 := ⟨many - 1, by omega⟩
      rw [walks, walks, List.filter_flatMap]
      -- The first step is short enough; a walk beyond it is one step shorter than the bound.
      refine congrArg (List.flatMap · _) (funext fun entry => ?_)
      obtain ⟨next, childSeed⟩ := entry
      rw [List.filter_cons_of_pos (by simp)]
      refine congrArg (List.cons [next]) ?_
      split
      · rfl
      · rw [List.filter_map, ih (Nat.le_of_succ_le_succ h)]
        simp [Function.comp_def]

theorem recorded_eq_filter (s : Search) (mode : LengthMode) (maxLength : Nat) (start : NodeId)
    (seed : UInt64) :
    { s with mode, maxLength }.recorded start seed =
      (s.walks maxLength start seed).filter fun walk =>
        s.arrives (walk.getLastD start) && mode.accepts walk.length maxLength := by
  rw [recorded, walks_congr]
  rfl

/-- What is recorded under a bound is recorded up to any greater bound, and told apart there
by its length. -/
theorem recorded_bounded (s : Search) (mode : LengthMode) {few many : Nat} (h : few ≤ many)
    (start : NodeId) (seed : UInt64) :
    { s with mode, maxLength := few }.recorded start seed =
      ({ s with mode := .upTo, maxLength := many }.recorded start seed).filter
        fun walk => mode.accepts walk.length few := by
  rw [recorded_eq_filter, recorded_eq_filter, s.walks_eq_filter h, List.filter_filter,
    List.filter_filter]
  refine List.filter_congr fun walk hwalk => ?_
  obtain ⟨hpos, hmany⟩ := length_of_mem_walks hwalk
  rw [Bool.eq_iff_iff]
  simp only [Bool.and_eq_true, decide_eq_true_iff, LengthMode.accepts_upTo]
  constructor
  · intro hboth
    obtain ⟨⟨harrives, haccepts⟩, -⟩ := hboth
    exact ⟨haccepts, harrives, hpos, hmany⟩
  · intro hboth
    obtain ⟨haccepts, harrives, -⟩ := hboth
    exact ⟨⟨harrives, haccepts⟩, LengthMode.le_of_accepts haccepts⟩

end Search

namespace Enumerator

variable (e : Enumerator) (settings : SearchSettings)

theorem walksBetween_bounded (mode : LengthMode) {few many : Nat} (h : few ≤ many)
    (ends : Ends) :
    e.walksBetween (settings.bounded mode few) ends =
      (e.walksBetween (settings.bounded .upTo many) ends).filter
        fun found => mode.accepts found.2.length few := by
  rw [walksBetween, walksBetween, List.filter_map]
  exact congrArg (List.map _) ((e.search settings ends.2).recorded_bounded mode h _ _)

theorem endsOf_bounded (mode : LengthMode) (maxLength : Nat) (request : Request) :
    e.endsOf (settings.bounded mode maxLength) request = e.endsOf settings request := by
  cases request <;> rfl

/-- The walks of a request under a bound are those walks up to a greater bound that its
mode accepts. -/
theorem walksOf_bounded (mode : LengthMode) {few many : Nat} (h : few ≤ many)
    (request : Request) :
    e.walksOf (settings.bounded mode few) request =
      (e.walksOf (settings.bounded .upTo many) request).filter
        fun found => mode.accepts found.2.length few := by
  rw [walksOf, walksOf, endsOf_bounded, endsOf_bounded, walksAmong, walksAmong,
    List.filter_flatMap]
  exact congrArg (List.flatMap · _) (funext fun ends => walksBetween_bounded e settings mode h ends)

variable {e settings}

theorem length_of_mem_walksOf {mode : LengthMode} {k : Nat} {request : Request}
    {found : NodeId × List NodeId} (h : found ∈ e.walksOf (settings.bounded mode k) request) :
    mode.accepts found.2.length k = true := by
  rw [walksOf_bounded e settings mode (Nat.le_refl k)] at h
  exact (List.mem_filter.mp h).2

theorem hops_of_mem_pathsOf {mode : LengthMode} {k : Nat} {request : Request} {K : MetaPath}
    (h : K ∈ e.pathsOf (e.walksOf (settings.bounded mode k) request)) :
    mode.accepts K.hops k = true := by
  obtain ⟨⟨start, walk⟩, hwalk, hK⟩ := List.mem_flatMap.mp h
  rw [Trace.hops_of_mem_expand hK, Trace.hops, Network.traceOf, List.length_reverse,
    Network.length_stepsOf]
  exact length_of_mem_walksOf hwalk

/-! ## The sum over all lengths -/

theorem sum_map_eq_sum_lengths {found : List (NodeId × List NodeId)} {k : Nat}
    (h : ∀ walk ∈ found, walk.2.length ∈ Finset.Icc 1 k) (f : NodeId × List NodeId → Nat) :
    (found.map f).sum = ∑ j ∈ Finset.Icc 1 k,
      ((found.filter fun walk => LengthMode.exact.accepts walk.2.length j).map f).sum := by
  induction found with
  | nil => simp
  | cons walk rest ih =>
      have hstep : ∀ j ∈ Finset.Icc 1 k,
          (((walk :: rest).filter fun w => LengthMode.exact.accepts w.2.length j).map f).sum =
            (if walk.2.length = j then f walk else 0) +
              ((rest.filter fun w => LengthMode.exact.accepts w.2.length j).map f).sum := by
        intro j _
        rw [List.filter_cons]
        simp only [LengthMode.accepts_exact]
        split
        · rw [List.map_cons, List.sum_cons]
        · rw [Nat.zero_add]
      rw [List.map_cons, List.sum_cons, ih fun w hw => h w (List.mem_cons_of_mem _ hw),
        Finset.sum_congr rfl hstep, Finset.sum_add_distrib, Finset.sum_ite_eq,
        if_pos (h walk List.mem_cons_self)]

theorem sum_walksOf_upTo (request : Request) (k : Nat) (f : NodeId × List NodeId → Nat) :
    ((e.walksOf (settings.bounded .upTo k) request).map f).sum =
      ∑ j ∈ Finset.Icc 1 k, ((e.walksOf (settings.bounded .exact j) request).map f).sum := by
  have hlengths : ∀ walk ∈ e.walksOf (settings.bounded .upTo k) request,
      walk.2.length ∈ Finset.Icc 1 k := by
    intro walk hwalk
    exact Finset.mem_Icc.mpr (LengthMode.accepts_upTo.mp (length_of_mem_walksOf hwalk))
  rw [sum_map_eq_sum_lengths hlengths f]
  refine Finset.sum_congr rfl fun j hj => ?_
  rw [walksOf_bounded e settings .exact (Finset.mem_Icc.mp hj).2]

theorem observed_upTo (request : Request) (k : Nat) (K : MetaPath) :
    (e.occurrencesOf (settings.bounded .upTo k) request).observed K =
      ∑ j ∈ Finset.Icc 1 k, (e.occurrencesOf (settings.bounded .exact j) request).observed K := by
  simp only [observed_occurrencesOf, pathsOf, List.count_flatMap]
  exact sum_walksOf_upTo request k _

theorem length_walksOf_upTo (request : Request) (k : Nat) :
    (e.walksOf (settings.bounded .upTo k) request).length =
      ∑ j ∈ Finset.Icc 1 k, (e.walksOf (settings.bounded .exact j) request).length := by
  have hone : ∀ found : List (NodeId × List NodeId),
      (found.map fun _ => 1).sum = found.length := by
    intro found
    rw [List.map_const', List.sum_replicate_nat, Nat.mul_one]
  simp only [← hone]
  exact sum_walksOf_upTo request k _

theorem observed_pos_iff (request : Request) (K : MetaPath) :
    0 < (e.occurrencesOf settings request).observed K ↔
      K ∈ e.pathsOf (e.walksOf settings request) := by
  rw [observed_occurrencesOf, List.count_pos_iff]

theorem mem_paths_upTo (request : Request) (k : Nat) (K : MetaPath) :
    K ∈ e.pathsOf (e.walksOf (settings.bounded .upTo k) request) ↔
      ∃ j ∈ Finset.Icc 1 k, K ∈ e.pathsOf (e.walksOf (settings.bounded .exact j) request) := by
  rw [← observed_pos_iff, observed_upTo, Finset.sum_pos_iff]
  simp only [observed_pos_iff]

theorem within_upTo {few many : Nat} (h : few ≤ many) (request : Request) :
    Within (e.occurrencesOf (settings.bounded .upTo few) request)
      (e.resultOf { settings.bounded .upTo few with limit := none } request)
      (e.occurrencesOf (settings.bounded .upTo many) request)
      (e.resultOf { settings.bounded .upTo many with limit := none } request) := by
  refine within_of_sublist ?_ ?_
  · rw [walksOf_bounded e settings .upTo h]
    exact List.filter_sublist
  · rw [endsOf_bounded, endsOf_bounded]

end Enumerator

/-! ## The runs up to a bound, taken apart -/

/-- What the occurrences `o` and the results `r` of runs in both modes and under every bound
up to k have to do with each other. -/
structure Decomposes (o : LengthMode → Nat → Occurrences)
    (r : LengthMode → Nat → EnumerationResult) (k : Nat) : Prop where
  counts : ∀ K, (o .upTo k).observed K = ∑ j ∈ Finset.Icc 1 k, (o .exact j).observed K
  traces : (o .upTo k).traces = ∑ j ∈ Finset.Icc 1 k, (o .exact j).traces ∧
    (r .upTo k).traces = ∑ j ∈ Finset.Icc 1 k, (r .exact j).traces
  paths : ∀ K, K ∈ (r .upTo k).paths ↔ ∃ j ∈ Finset.Icc 1 k, K ∈ (r .exact j).paths
  disjoint : ∀ i ∈ Finset.Icc 1 k, ∀ j ∈ Finset.Icc 1 k, ∀ K,
    K ∈ (r .exact i).paths → K ∈ (r .exact j).paths → i = j
  pairs : ∀ mode, ∀ j ∈ Finset.Icc 1 k, (r mode j).pairs = (r .upTo k).pairs
  grows : ∀ i ∈ Finset.Icc 1 k, ∀ j ∈ Finset.Icc 1 k, i ≤ j →
    Within (o .upTo i) (r .upTo i) (o .upTo j) (r .upTo j)

namespace Enumerator

theorem decomposes (e : Enumerator) (settings : SearchSettings) (request : Request) (k : Nat) :
    Decomposes (fun mode j => e.occurrencesOf (settings.bounded mode j) request)
      (fun mode j => e.resultOf { settings.bounded mode j with limit := none } request) k where
  counts := observed_upTo request k
  traces := ⟨length_walksOf_upTo request k, length_walksOf_upTo request k⟩
  paths := fun K => by
    simp only [mem_paths_unlimited]
    exact mem_paths_upTo request k K
  disjoint := by
    intro i _ j _ K hi hj
    rw [mem_paths_unlimited] at hi hj
    rw [← LengthMode.accepts_exact.mp (hops_of_mem_pathsOf hi),
      LengthMode.accepts_exact.mp (hops_of_mem_pathsOf hj)]
  pairs := by
    intro mode j _
    show (e.endsOf (settings.bounded mode j) request).length =
      (e.endsOf (settings.bounded .upTo k) request).length
    rw [endsOf_bounded, endsOf_bounded]
  grows := fun i _ j _ hij => within_upTo hij request

/-- A run up to a bound is the runs for the exact lengths put together: its counts and
traces are the sums of theirs and its paths the disjoint union of theirs, while each of
them searches the same pairs. So a greater bound takes nothing away. -/
theorem upTo_decomposes {e : Enumerator} {settings : SearchSettings} {request : Request} {k : Nat}
    (h : e.CanAnswer (settings.bounded .upTo k) request) :
    ∃ o r, (∀ mode, ∀ j ∈ Finset.Icc 1 k,
        e.Answers (settings.bounded mode j) request (o mode j) (r mode j)) ∧
      Decomposes o r k := by
  have hanswer : ∀ mode, ∀ j ∈ Finset.Icc 1 k, e.CanAnswer (settings.bounded mode j) request := by
    intro mode j hj
    obtain ⟨hpos, hle⟩ := Finset.mem_Icc.mp hj
    have hprobabilities := (SearchSettings.validate_eq_ok.mp h.valid).2
    have hvalid : (settings.bounded mode j).validate = .ok () :=
      SearchSettings.validate_eq_ok.mpr ⟨Nat.one_le_iff_ne_zero.mp hpos, hprobabilities⟩
    exact ⟨hvalid, Trace.reserve_of_le h.room hle, h.knows, h.readable, h.accepting⟩
  exact ⟨fun mode j => e.occurrencesOf (settings.bounded mode j) request,
    fun mode j => e.resultOf { settings.bounded mode j with limit := none } request,
    fun mode j hj => (hanswer mode j hj).answers, decomposes e settings request k⟩

/-- The whole network of two nodes, with every second edge and every second pair skipped. -/
theorem upTo_decomposes_twin :
    ∃ o r, (∀ mode, ∀ j ∈ Finset.Icc 1 3,
        Answers { network := ListedNetwork.twin.network }
          (SearchSettings.bounded { maxLength := 3, edgeSkip := 0.5, nodeSkip := 0.5 } mode j)
          (.wholeGraph none) (o mode j) (r mode j)) ∧
      Decomposes o r 3 := by
  refine upTo_decomposes ⟨SearchSettings.validate_eq_ok.mpr ?_, by decide, trivial,
    ListedNetwork.readable_twin, fun sink hsink => by cases hsink⟩
  decide +kernel

end Enumerator

end Hetnet
