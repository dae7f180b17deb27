import Mathlib
import Hetnet.Proofs.Collecting

/-!
# Who collects and who merges is never seen

Every collector that tasks can come to is made from fresh ones by recording and merging, in
some order and nesting: that is a `Gathering`. Which paths were handed out can be read off it,
and by a case for each of the three operations the collector is the one that has recorded just
these paths, one after the other (`Gathering.collector_eq_ofPaths`).

Neither collector tells the order of its paths, so the paths may be shared out among any
number of collectors. A merge moves the smaller set into the larger, whichever side that
is; as a gathering may also have the two sides the other way round, this is not seen either.
-/

namespace Hetnet

/-- How a collector has come about. -/
inductive Gathering
  /-- Nothing has been recorded yet. -/
  | fresh
  /-- One more path has been recorded. -/
  | record (g : Gathering) (path : MetaPath)
  /-- Another collector has been absorbed. -/
  | merge (g absorbed : Gathering)

namespace Gathering

/-- The collector that has come about. -/
def collector (C : Type) [Collector C] : Gathering → C
  | fresh => Collector.empty
  | record g path => Collector.record (g.collector C) path
  | merge g absorbed => Collector.merge (g.collector C) (absorbed.collector C)

/-- The paths that were recorded on the way, by whichever collector. -/
def paths : Gathering → List MetaPath
  | fresh => []
  | record g path => g.paths ++ [path]
  | merge g absorbed => g.paths ++ absorbed.paths

theorem collector_eq_ofPaths {C : Type} [Collector C] [LawfulCollector C] (g : Gathering) :
    g.collector C = Collector.ofPaths C g.paths := by
  induction g with
  | fresh => rfl
  | record g path ih =>
      rw [collector, ih, paths, Collector.ofPaths, Collector.ofPaths,
        ← Collector.recordAll_recordAll]
      rfl
  | merge g absorbed ih ihAbsorbed =>
      rw [collector, ih, ihAbsorbed, paths, LawfulCollector.merge_ofPaths]

/-- What the two collectors of a gathering know: the set knows which paths a list holds, the
tally how often it holds them, and both are what one collector makes of the whole list. -/
structure Tells (g : Gathering) (paths : List MetaPath) : Prop where
  mem_set : ∀ K, K ∈ g.collector MetaPathSet ↔ K ∈ paths
  getElem?_tally : ∀ K, (g.collector PathTally)[K]? =
    if K ∈ paths then some (paths.count K) else none
  set_eq : g.collector MetaPathSet = paths.foldl Collector.record Collector.empty
  tally_eq : g.collector PathTally = paths.foldl Collector.record Collector.empty
  pathSet_set : ∀ K, K ∈ Collector.pathSet (g.collector MetaPathSet) ↔ K ∈ paths
  pathSet_tally : ∀ K, K ∈ Collector.pathSet (g.collector PathTally) ↔ K ∈ paths

end Gathering

theorem MetaPathSet.ofPaths_eq_of_perm {paths others : List MetaPath} (h : paths.Perm others) :
    Collector.ofPaths MetaPathSet paths = Collector.ofPaths MetaPathSet others :=
  Std.ExtTreeSet.ext_mem fun K => by rw [mem_ofPaths, mem_ofPaths, h.mem_iff]

theorem Collector.mem_pathSet_ofPaths {C : Type} [Collector C] [LawfulCollector C]
    {paths : List MetaPath} {K : MetaPath} :
    K ∈ Collector.pathSet (Collector.ofPaths C paths) ↔ K ∈ paths := by
  rw [LawfulCollector.pathSet_ofPaths, Std.ExtTreeSet.mem_ofList, List.contains_iff_mem]

/-- However a list of paths is shared out among collectors, and in whatever order and nesting
these are merged, what is known at the end is the list up to the order of its entries. -/
theorem Gathering.tells_of_perm (g : Gathering) {paths : List MetaPath}
    (h : g.paths.Perm paths) : g.Tells paths := by
  have hset : g.collector MetaPathSet = Collector.ofPaths MetaPathSet paths :=
    g.collector_eq_ofPaths.trans (MetaPathSet.ofPaths_eq_of_perm h)
  have htally : g.collector PathTally = Collector.ofPaths PathTally paths :=
    g.collector_eq_ofPaths.trans (PathTally.ofPaths_eq_of_perm h)
  refine ⟨fun K => ?_, fun K => ?_, hset, htally, fun K => ?_, fun K => ?_⟩
  · rw [hset, MetaPathSet.mem_ofPaths]
  · rw [htally, PathTally.getElem?_ofPaths]
  · rw [hset, Collector.mem_pathSet_ofPaths]
  · rw [htally, Collector.mem_pathSet_ofPaths]

/-- Three paths, one of them listed twice. Two collectors share them out, and both are absorbed by
a third one that has recorded nothing; the second of the two holds more. -/
theorem Gathering.tells_of_perm_thrice :
    Tells (.merge (.merge .fresh (.record .fresh ⟨"1|0|2"⟩))
        (.record (.record (.record .fresh ⟨"2|0|1"⟩) ⟨"1|0|2"⟩) ⟨"0"⟩))
      [⟨"0"⟩, ⟨"1|0|2"⟩, ⟨"1|0|2"⟩, ⟨"2|0|1"⟩] :=
  tells_of_perm _ (by decide +kernel)

end Hetnet
