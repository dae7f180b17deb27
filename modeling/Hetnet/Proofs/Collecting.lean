import Mathlib
import Hetnet.Collector

/-!
# A collector knows the recorded paths and nothing else

A search hands its paths to a collector one by one, and the collectors of the tasks
are merged at the end. What comes out must be a fact about the paths alone, whichever
task found them. `LawfulCollector` says so: to merge two collectors is to record the
paths of the second after those of the first.

Both collectors are lawful because both are determined by their look-ups. A tally
answers with the multiplicity of a path in the list, and has no entry for a path of
multiplicity zero; the set answers with membership.
-/

namespace Hetnet

namespace Collector

/-- The collector that has recorded a list of paths. -/
def ofPaths (C : Type) [Collector C] (paths : List MetaPath) : C := recordAll empty paths

theorem recordAll_recordAll {C : Type} [Collector C] (c : C) (ps qs : List MetaPath) :
    recordAll (recordAll c ps) qs = recordAll c (ps ++ qs) := by
  simp only [recordAll, List.foldl_append]

end Collector

/-- A collector of which only the recorded paths can be seen. -/
class LawfulCollector (C : Type) [Collector C] : Prop where
  merge_ofPaths : ∀ ps qs : List MetaPath,
    Collector.merge (Collector.ofPaths C ps) (Collector.ofPaths C qs) =
      Collector.ofPaths C (ps ++ qs)
  pathSet_ofPaths : ∀ ps : List MetaPath,
    Collector.pathSet (Collector.ofPaths C ps) = Std.ExtTreeSet.ofList ps

/-! ## Tallies

A single addition changes a single entry; a fold of additions over entries with
distinct keys changes each of their keys once. -/

namespace PathTally

theorem getElem?_add (tally : PathTally) (path K : MetaPath) (count : Nat) :
    (tally.add path count)[K]? =
      if path = K then some (tally.observed path + count) else tally[K]? := by
  rw [add, Std.ExtTreeMap.getElem?_alter]
  simp only [Std.LawfulEqOrd.compare_eq_iff_eq, observed,
    Std.ExtTreeMap.getD_eq_getD_getElem?]

theorem getElem?_recordAll (tally : PathTally) (paths : List MetaPath) (K : MetaPath) :
    (Collector.recordAll tally paths)[K]? =
      if K ∈ paths then some (tally.observed K + paths.count K) else tally[K]? := by
  induction paths generalizing tally with
  | nil => simp [Collector.recordAll]
  | cons path rest ih =>
      have hstep : Collector.recordAll tally (path :: rest) =
          Collector.recordAll (tally.add path 1) rest := rfl
      rw [hstep, ih, getElem?_add]
      by_cases hpath : path = K
      · subst hpath
        have hobs : (tally.add path 1).observed path = tally.observed path + 1 := by
          rw [observed, Std.ExtTreeMap.getD_eq_getD_getElem?, getElem?_add, if_pos rfl]
          rfl
        rw [hobs, if_pos rfl, if_pos List.mem_cons_self, List.count_cons_self]
        split
        · congr 1
          omega
        · next hnot => rw [List.count_eq_zero_of_not_mem hnot]
      · have hobs : (tally.add path 1).observed K = tally.observed K := by
          rw [observed, observed, Std.ExtTreeMap.getD_eq_getD_getElem?, getElem?_add,
            if_neg hpath, ← Std.ExtTreeMap.getD_eq_getD_getElem?]
        have hmem : K ∈ path :: rest ↔ K ∈ rest := by
          simp [show K ≠ path from fun h => hpath h.symm]
        rw [hobs, if_neg hpath, List.count_cons_of_ne hpath]
        simp only [hmem]

/-- The tally of a list of paths: the multiplicity of every path in it, and no
entry for any other path. -/
theorem getElem?_ofPaths (paths : List MetaPath) (K : MetaPath) :
    (Collector.ofPaths PathTally paths)[K]? =
      if K ∈ paths then some (paths.count K) else none := by
  have hempty : (Collector.empty : PathTally) = ∅ := rfl
  rw [Collector.ofPaths, getElem?_recordAll, hempty]
  simp [observed]

theorem observed_ofPaths (paths : List MetaPath) (K : MetaPath) :
    (Collector.ofPaths PathTally paths).observed K = paths.count K := by
  rw [observed, Std.ExtTreeMap.getD_eq_getD_getElem?, getElem?_ofPaths]
  split
  · rfl
  · next hnot => rw [List.count_eq_zero_of_not_mem hnot]; rfl

theorem mem_ofPaths {paths : List MetaPath} {K : MetaPath} :
    K ∈ Collector.ofPaths PathTally paths ↔ K ∈ paths := by
  rw [Std.ExtTreeMap.mem_iff_isSome_getElem?, getElem?_ofPaths]
  split <;> simp_all

/-- A tally does not tell in which order its paths came. -/
theorem ofPaths_eq_of_perm {paths others : List MetaPath} (h : paths.Perm others) :
    Collector.ofPaths PathTally paths = Collector.ofPaths PathTally others := by
  refine Std.ExtTreeMap.ext_getElem? fun K => ?_
  rw [getElem?_ofPaths, getElem?_ofPaths, h.count_eq K]
  simp only [h.mem_iff]

theorem getElem?_foldl_add_of_forall_ne {entries : List (MetaPath × Nat)} {K : MetaPath}
    (h : ∀ entry ∈ entries, entry.1 ≠ K) (tally : PathTally) :
    (entries.foldl (fun tally entry => tally.add entry.1 entry.2) tally)[K]? = tally[K]? := by
  induction entries generalizing tally with
  | nil => rfl
  | cons entry rest ih =>
      rw [List.foldl_cons, ih (fun e he => h e (List.mem_cons_of_mem _ he)), getElem?_add,
        if_neg (h entry List.mem_cons_self)]

theorem getElem?_foldl_add_of_mem {entries : List (MetaPath × Nat)} {K : MetaPath} {n : Nat}
    (hd : entries.Pairwise fun a b => a.1 ≠ b.1) (h : (K, n) ∈ entries) (tally : PathTally) :
    (entries.foldl (fun tally entry => tally.add entry.1 entry.2) tally)[K]? =
      some (tally.observed K + n) := by
  induction entries generalizing tally with
  | nil => cases h
  | cons entry rest ih =>
      obtain ⟨hfirst, hrest⟩ := List.pairwise_cons.mp hd
      rw [List.foldl_cons]
      rcases List.mem_cons.mp h with rfl | hmem
      · rw [getElem?_foldl_add_of_forall_ne (fun e he => (hfirst e he).symm), getElem?_add,
          if_pos rfl]
      · have hne : entry.1 ≠ K := hfirst (K, n) hmem
        rw [ih hrest hmem, observed, observed, Std.ExtTreeMap.getD_eq_getD_getElem?,
          getElem?_add, if_neg hne, ← Std.ExtTreeMap.getD_eq_getD_getElem?]

theorem getElem?_merge (a b : PathTally) (K : MetaPath) :
    (Collector.merge a b)[K]? =
      match b[K]? with
      | some n => some (a.observed K + n)
      | none => a[K]? := by
  have hfold : Collector.merge a b =
      b.toList.foldl (fun tally entry => tally.add entry.1 entry.2) a := by
    show b.foldl PathTally.add a = _
    rw [Std.ExtTreeMap.foldl_eq_foldl_toList]
  have hdistinct : b.toList.Pairwise fun x y => x.1 ≠ y.1 := by
    refine Std.ExtTreeMap.distinct_keys_toList.imp fun h heq => h ?_
    rw [heq]
    exact Std.ReflCmp.compare_self
  rw [hfold]
  cases hK : b[K]? with
  | some n =>
      exact getElem?_foldl_add_of_mem hdistinct
        (Std.ExtTreeMap.mem_toList_iff_getElem?_eq_some.mpr hK) a
  | none =>
      refine getElem?_foldl_add_of_forall_ne (fun entry hentry heq => ?_) a
      have hsome := Std.ExtTreeMap.mem_toList_iff_getElem?_eq_some.mp hentry
      rw [heq, hK] at hsome
      cases hsome

end PathTally

instance : LawfulCollector PathTally where
  merge_ofPaths ps qs := by
    refine Std.ExtTreeMap.ext_getElem? fun K => ?_
    rw [PathTally.getElem?_merge, PathTally.observed_ofPaths]
    simp only [PathTally.getElem?_ofPaths, List.mem_append, List.count_append]
    by_cases hq : K ∈ qs
    · simp [hq]
    · simp [hq, List.count_eq_zero_of_not_mem hq]
  pathSet_ofPaths ps := by
    refine Std.ExtTreeSet.ext_mem fun K => ?_
    show K ∈ Std.ExtTreeSet.ofList (Collector.ofPaths PathTally ps).keys ↔ _
    simp [Std.ExtTreeSet.mem_ofList, Std.ExtTreeMap.mem_keys, PathTally.mem_ofPaths]

/-! ## Sets -/

namespace MetaPathSet

theorem mem_recordAll (set : MetaPathSet) (paths : List MetaPath) {K : MetaPath} :
    K ∈ Collector.recordAll set paths ↔ K ∈ set ∨ K ∈ paths := by
  induction paths generalizing set with
  | nil => simp [Collector.recordAll]
  | cons path rest ih =>
      have hstep : Collector.recordAll set (path :: rest) =
          Collector.recordAll (set.insert path) rest := rfl
      rw [hstep, ih, Std.ExtTreeSet.mem_insert, Std.LawfulEqOrd.compare_eq_iff_eq,
        List.mem_cons, eq_comm]
      tauto

theorem ofPaths_eq_ofList (paths : List MetaPath) :
    Collector.ofPaths MetaPathSet paths = Std.ExtTreeSet.ofList paths := by
  refine Std.ExtTreeSet.ext_mem fun K => ?_
  have hempty : (Collector.empty : MetaPathSet) = ∅ := rfl
  rw [Collector.ofPaths, mem_recordAll, hempty, Std.ExtTreeSet.mem_ofList]
  simp

theorem mem_ofPaths {paths : List MetaPath} {K : MetaPath} :
    K ∈ Collector.ofPaths MetaPathSet paths ↔ K ∈ paths := by
  rw [ofPaths_eq_ofList, Std.ExtTreeSet.mem_ofList, List.contains_iff_mem]

theorem mem_append {paths others : MetaPathSet} {K : MetaPath} :
    K ∈ paths.append others ↔ K ∈ paths ∨ K ∈ others := by
  have hfold : paths.append others = Collector.recordAll paths others.toList :=
    Std.ExtTreeSet.foldl_eq_foldl_toList
  rw [hfold, mem_recordAll, Std.ExtTreeSet.mem_toList]

/-- Whichever of two sets is moved into the other, their union comes out. -/
theorem merge_eq_union (a b : MetaPathSet) : Collector.merge a b = a ∪ b := by
  refine Std.ExtTreeSet.ext_mem fun K => ?_
  show K ∈ (if a.size < b.size then b.append a else a.append b) ↔ _
  rw [Std.ExtTreeSet.mem_union_iff]
  split
  · exact mem_append.trans or_comm
  · exact mem_append

end MetaPathSet

instance : LawfulCollector MetaPathSet where
  merge_ofPaths ps qs := by
    refine Std.ExtTreeSet.ext_mem fun K => ?_
    simp only [MetaPathSet.merge_eq_union, Std.ExtTreeSet.mem_union_iff, MetaPathSet.mem_ofPaths,
      List.mem_append]
  pathSet_ofPaths ps := MetaPathSet.ofPaths_eq_ofList ps

end Hetnet
