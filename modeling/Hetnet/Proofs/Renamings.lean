import Mathlib
import Hetnet.Proofs.TargetCounts

/-!
# A search does not see how nodes are numbered

A renaming takes the nodes of one network one to one to those of another, with their labels,
their neighbors and the edge types in between (`Network.Renames`). Neighbors need not come in
the same order, and there the two networks really differ: a search visits them as they come.

Where no edge is skipped, a visit depends on its seed no more (`Search.walks_succ`), and
the walks of a renamed search are the renamed walks in another order. The induction
is on the depth that is left, as in the visit itself. What a request finds is then read off a
permuted list of walks with the same paths, and neither a tally nor a number of walks tells a
list from a permuted one.
-/

namespace Hetnet

open Double

/-! ## Renamed networks -/

namespace Network

/-- A function under which the nodes of a network become those of another, walked in a
direction. -/
structure Renames (f : NodeId → NodeId) (g h : Network) (direction : Direction) : Prop where
  nodes : ((nodesFrom 0 g.nodeCount).map f).Perm (nodesFrom 0 h.nodeCount)
  injective : Set.InjOn f {node | g.contains node = true}
  closed : ∀ node, ∀ next ∈ g.neighbors node direction, g.contains next = true
  neighbors : ∀ node, g.contains node = true →
    ((g.neighbors node direction).map f).Perm (h.neighbors (f node) direction)
  labels : ∀ node, g.contains node = true → h.labelsOf (f node) = g.labelsOf node
  edgeType : ∀ node, g.contains node = true → ∀ next ∈ g.neighbors node direction,
    h.edgeTypeOf (f node) (f next) = g.edgeTypeOf node next

variable {f : NodeId → NodeId} {g h : Network} {direction : Direction}

theorem nodesIn_none : g.nodesIn none = nodesFrom 0 g.nodeCount :=
  (Enumerator.startsOf_eq_nodesIn (e := { network := g }) none).symm

theorem Renames.contains (hr : g.Renames f h direction) {node : NodeId}
    (hnode : g.contains node = true) : h.contains (f node) = true := by
  rw [contains_iff_mem_nodesFrom] at hnode ⊢
  exact hr.nodes.mem_iff.mp (List.mem_map_of_mem hnode)

theorem Renames.contains_of_joined (hr : g.Renames f h direction) {node : NodeId}
    (hnode : g.contains node = true) {walk : List NodeId} (hwalk : g.Joined direction node walk) :
    g.contains (walk.getLastD node) = true := by
  induction walk generalizing node with
  | nil => exact hnode
  | cons next rest ih =>
      obtain ⟨hnext, hrest⟩ := joined_cons.mp hwalk
      have hlast : (next :: rest).getLastD node = rest.getLastD next := by
        cases rest <;> rfl
      rw [hlast]
      exact ih (hr.closed node next hnext) hrest

theorem Renames.stepsOf (hr : g.Renames f h direction) {node : NodeId}
    (hnode : g.contains node = true) {walk : List NodeId} (hwalk : g.Joined direction node walk) :
    h.stepsOf (f node) (walk.map f) = g.stepsOf node walk := by
  induction walk generalizing node with
  | nil => rfl
  | cons next rest ih =>
      obtain ⟨hnext, hrest⟩ := joined_cons.mp hwalk
      have hcontains := hr.closed node next hnext
      rw [List.map_cons, Network.stepsOf, Network.stepsOf, hr.edgeType node hnode next hnext,
        hr.labels next hcontains, ih hcontains hrest]

theorem Renames.pathsAlong (hr : g.Renames f h direction) {start : NodeId}
    (hstart : g.contains start = true) {walk : List NodeId}
    (hwalk : g.Joined direction start walk) :
    h.pathsAlong (f start) (walk.map f) = g.pathsAlong start walk := by
  rw [Network.pathsAlong, Network.pathsAlong, traceOf, traceOf, hr.labels start hstart,
    hr.stepsOf hstart hwalk]

end Network

/-! ## Renamed searches -/

namespace Search

section

variable {s : Search} (hskip : value? s.edgeSkip = some 0)
include hskip

theorem walks_succ_of_seed {remaining : Nat}
    (hseed : ∀ node seed seed', s.walks remaining node seed = s.walks remaining node seed')
    (node : NodeId) (seed seed' : UInt64) :
    s.walks (remaining + 1) node seed =
      (s.network.neighbors node s.direction).flatMap fun next =>
        [next] :: if s.target = some next then []
          else (s.walks remaining next seed').map (next :: ·) := by
  have hall : (s.kept node seed).map Prod.fst = s.network.neighbors node s.direction :=
    Branch.map_fst_kept hskip _ _
  rw [walks, ← hall, List.flatMap_map]
  refine List.flatMap_congr fun entry _ => ?_
  dsimp only
  rw [hseed entry.1 entry.2 seed']

theorem walks_seed (remaining : Nat) (node : NodeId) (seed seed' : UInt64) :
    s.walks remaining node seed = s.walks remaining node seed' := by
  induction remaining generalizing node seed seed' with
  | zero => rfl
  | succ remaining ih =>
      rw [walks_succ_of_seed hskip ih node seed 0, walks_succ_of_seed hskip ih node seed' 0]

theorem walks_succ (remaining : Nat) (node : NodeId) (seed seed' : UInt64) :
    s.walks (remaining + 1) node seed =
      (s.network.neighbors node s.direction).flatMap fun next =>
        [next] :: if s.target = some next then []
          else (s.walks remaining next seed').map (next :: ·) :=
  walks_succ_of_seed hskip (walks_seed hskip remaining) node seed seed'

end

/-- The search in a renamed network. -/
def renamed (s : Search) (f : NodeId → NodeId) (h : Network) : Search :=
  { s with network := h, target := s.target.map f }

variable {s : Search} {f : NodeId → NodeId} {h : Network}

section

variable (hr : s.network.Renames f h s.direction)
  (htarget : ∀ stop, s.target = some stop → s.network.contains stop = true)
include hr htarget

theorem target_renamed_iff {node : NodeId} (hnode : s.network.contains node = true) :
    (s.renamed f h).target = some (f node) ↔ s.target = some node := by
  constructor
  · intro heq
    obtain ⟨stop, hstop, hsame⟩ := Option.map_eq_some_iff.mp heq
    rw [hstop, hr.injective (htarget stop hstop) hnode hsame]
  · intro heq
    rw [renamed, heq]
    rfl

theorem arrives_renamed {node : NodeId} (hnode : s.network.contains node = true) :
    (s.renamed f h).arrives (f node) = s.arrives node := by
  have hiff := target_renamed_iff hr htarget hnode
  rw [arrives, arrives, Bool.eq_iff_iff]
  cases hstop : s.target with
  | none =>
      rw [renamed, hstop]
      rfl
  | some stop =>
      rw [renamed, hstop] at hiff ⊢
      simpa using hiff

theorem passes_renamed {start : NodeId} (hstart : s.network.contains start = true)
    {walk : List NodeId} (hwalk : s.network.Joined s.direction start walk) :
    (s.renamed f h).passes (f start) (walk.map f) = s.passes start walk := by
  have hlast : (walk.map f).getLastD (f start) = f (walk.getLastD start) := by
    rw [List.getLastD_eq_getLast?, List.getLastD_eq_getLast?, List.getLast?_map]
    cases walk.getLast? <;> rfl
  rw [passes, passes, hlast, arrives_renamed hr htarget (hr.contains_of_joined hstart hwalk),
    List.length_map]
  rfl

/-- The walks of a renamed visit are the renamed walks, in some order. -/
theorem perm_walks (hskip : value? s.edgeSkip = some 0) (remaining : Nat) {node : NodeId}
    (hnode : s.network.contains node = true) (seed seed' : UInt64) :
    ((s.walks remaining node seed).map (List.map f)).Perm
      ((s.renamed f h).walks remaining (f node) seed') := by
  induction remaining generalizing node seed seed' with
  | zero => exact List.Perm.refl _
  | succ remaining ih =>
      rw [walks_succ hskip remaining node seed 0,
        walks_succ (s := s.renamed f h) hskip remaining (f node) seed' 0, List.map_flatMap]
      refine List.Perm.trans ?_ ((hr.neighbors node hnode).flatMap_right _)
      rw [List.flatMap_map]
      refine List.Perm.flatMap_left _ fun next hnext => ?_
      have hcontains := hr.closed node next hnext
      have hstop := target_renamed_iff hr htarget hcontains
      rw [List.map_cons]
      refine List.Perm.cons _ ?_
      simp only [hstop]
      split
      · exact List.Perm.refl _
      · have hrest := (ih hcontains 0 0).map (f next :: ·)
        rw [List.map_map] at hrest ⊢
        exact hrest

theorem perm_recorded (hskip : value? s.edgeSkip = some 0) {start : NodeId}
    (hstart : s.network.contains start = true) (seed seed' : UInt64) :
    ((s.recorded start seed).map (List.map f)).Perm
      ((s.renamed f h).recorded (f start) seed') := by
  have hpasses : s.recorded start seed = (s.walks s.maxLength start seed).filter
      ((s.renamed f h).passes (f start) ∘ List.map f) :=
    List.filter_congr fun walk hwalk =>
      (passes_renamed hr htarget hstart (joined_of_mem_walks hwalk)).symm
  rw [hpasses, ← List.filter_map]
  exact (perm_walks hr htarget hskip s.maxLength hstart seed seed').filter _

end

end Search

/-! ## Renamed requests -/

/-- The request for the same nodes under the names that they have in another network. -/
def Request.renamed (f : NodeId → NodeId) : Request → Request
  | .pair start stop => .pair (f start) (f stop)
  | .walksFrom start => .walksFrom (f start)
  | .wholeGraph range => .wholeGraph range
  | .pairs list => .pairs (list.map (Prod.map f f))

namespace Network

variable {f : NodeId → NodeId} {g h : Network} {direction : Direction}
  (hr : g.Renames f h direction)
include hr

theorem Renames.perm_adjacentPairs :
    ((g.adjacentPairs direction none).map (Prod.map f f)).Perm
      (h.adjacentPairs direction none) := by
  rw [adjacentPairs, adjacentPairs, nodesIn_none, nodesIn_none, List.map_flatMap]
  refine List.Perm.trans ?_ (hr.nodes.flatMap_right _)
  rw [List.flatMap_map]
  refine List.Perm.flatMap_left _ fun start hstart => ?_
  have hneighbors := (hr.neighbors start (contains_iff_mem_nodesFrom.mpr hstart)).map (f start, ·)
  rw [List.map_map] at hneighbors ⊢
  exact hneighbors

theorem Renames.perm_searches {request : Request}
    (hwhole : ∀ range, request ≠ .wholeGraph (some range)) :
    ((request.searches g direction).map (Prod.map f (Option.map f))).Perm
      ((request.renamed f).searches h direction) := by
  cases request with
  | pair start stop => exact List.Perm.refl _
  | walksFrom start => exact List.Perm.refl _
  | wholeGraph range =>
      cases range with
      | some range => exact absurd rfl (hwhole range)
      | none =>
          have hpairs := hr.perm_adjacentPairs.map fun pair => (pair.1, some pair.2)
          rw [Request.searches, List.map_map]
          rw [List.map_map] at hpairs
          exact hpairs
  | pairs list =>
      refine List.Perm.of_eq ?_
      rw [Request.searches, Request.renamed, Request.searches, List.map_map, List.map_map]
      rfl

end Network

/-! ## What a renamed request finds -/

namespace Enumerator

/-- The enumerator of a renamed network, with a seed of its own. -/
def renamed (e : Enumerator) (h : Network) (seed : UInt64) : Enumerator :=
  { e with network := h, seed }

variable {e : Enumerator} {settings : SearchSettings} {f : NodeId → NodeId} {h : Network}

section

variable (hr : e.network.Renames f h e.direction)
include hr

theorem perm_walksBetween (hskip : value? settings.edgeSkip = some 0) {ends : Ends}
    (hstart : e.network.contains ends.1 = true)
    (hstop : ∀ stop, ends.2 = some stop → e.network.contains stop = true) (seed : UInt64) :
    ((e.walksBetween settings ends).map (Prod.map f (List.map f))).Perm
      ((e.renamed h seed).walksBetween settings (Prod.map f (Option.map f) ends)) := by
  have hrecorded := (Search.perm_recorded (s := e.search settings ends.2) hr hstop hskip hstart
    (Sampling.pairSeed e.seed ends.1 (ends.2.getD ends.1))
    (Sampling.pairSeed seed (f ends.1) ((ends.2.map f).getD (f ends.1)))).map (f ends.1, ·)
  rw [walksBetween, List.map_map]
  rw [List.map_map] at hrecorded
  exact hrecorded

/-- The walks of a renamed request are the renamed walks, in some order. -/
theorem perm_walksOf {request : Request} (hskip : settings.SkipsNothing request)
    (hwhole : ∀ range, request ≠ .wholeGraph (some range)) (hknows : e.Knows request)
    (seed : UInt64) :
    ((e.walksOf settings request).map (Prod.map f (List.map f))).Perm
      ((e.renamed h seed).walksOf settings (request.renamed f)) := by
  have hends : ((e.endsOf settings request).map (Prod.map f (Option.map f))).Perm
      ((e.renamed h seed).endsOf settings (request.renamed f)) := by
    have hskip' : settings.SkipsNothing (request.renamed f) := by
      cases request <;> exact hskip
    rw [endsOf_eq_searches hskip, endsOf_eq_searches hskip']
    exact hr.perm_searches hwhole
  rw [walksOf, walksOf, walksAmong, walksAmong, List.map_flatMap]
  refine List.Perm.trans ?_ (hends.flatMap_right _)
  rw [List.flatMap_map]
  refine List.Perm.flatMap_left _ fun ends hmem => ?_
  obtain ⟨hstart, hstop⟩ := contains_of_mem_endsOf hr.closed hknows hmem
  exact perm_walksBetween hr hskip.1 hstart hstop seed

theorem pathsOf_renamed {request : Request} (hknows : e.Knows request) (seed : UInt64) :
    (e.renamed h seed).pathsOf ((e.walksOf settings request).map (Prod.map f (List.map f))) =
      e.pathsOf (e.walksOf settings request) := by
  rw [pathsOf, pathsOf, List.flatMap_map]
  refine List.flatMap_congr fun found hfound => ?_
  obtain ⟨ends, hends, hbetween⟩ := List.mem_flatMap.mp hfound
  obtain ⟨walk, hwalk, rfl⟩ := List.mem_map.mp hbetween
  exact hr.pathsAlong (contains_of_mem_endsOf hr.closed hknows hends).1
    (Search.joined_of_mem_walks (List.mem_of_mem_filter hwalk))

/-- A renamed request that skips nothing comes to the same occurrences, whatever the seed. -/
theorem occurrencesOf_renamed {request : Request} (hskip : settings.SkipsNothing request)
    (hwhole : ∀ range, request ≠ .wholeGraph (some range)) (hknows : e.Knows request)
    (seed : UInt64) :
    (e.renamed h seed).occurrencesOf settings (request.renamed f) =
      e.occurrencesOf settings request := by
  have hwalks := perm_walksOf hr hskip hwhole hknows seed
  have hpaths : ((e.renamed h seed).pathsOf
      ((e.renamed h seed).walksOf settings (request.renamed f))).Perm
        (e.pathsOf (e.walksOf settings request)) := by
    rw [← pathsOf_renamed hr hknows seed]
    exact hwalks.symm.flatMap_right _
  have hlength : ((e.renamed h seed).walksOf settings (request.renamed f)).length =
      (e.walksOf settings request).length := by
    rw [← hwalks.length_eq, List.length_map]
  have hsamples : (request.renamed f).samplesPairs = request.samplesPairs := by
    cases request <;> rfl
  rw [occurrencesOf, occurrencesOf, PathTally.ofPaths_eq_of_perm hpaths, hlength, hsamples]

theorem knows_renamed {request : Request} (hknows : e.Knows request)
    (hwhole : ∀ range, request ≠ .wholeGraph (some range)) (seed : UInt64) :
    (e.renamed h seed).Knows (request.renamed f) := by
  cases request with
  | pair start stop => exact ⟨hr.contains hknows.1, hr.contains hknows.2⟩
  | walksFrom start => exact hr.contains hknows
  | wholeGraph range =>
      cases range with
      | none => trivial
      | some range => exact absurd rfl (hwhole range)
  | pairs list =>
      intro pair hpair
      obtain ⟨old, hold, rfl⟩ := List.mem_map.mp hpair
      exact ⟨hr.contains (hknows old hold).1, hr.contains (hknows old hold).2⟩

end

end Enumerator

end Hetnet
