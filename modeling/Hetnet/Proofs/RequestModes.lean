import Mathlib
import Hetnet.Proofs.BuiltGraphs
import Hetnet.Proofs.Requests

/-!
# The kinds of request agree

A request for many pairs is worth the sum of the requests for its pairs, and a request for a
whole network is worth the request for the list of its adjacent pairs. Both follow
from the lists of ends alone: `endsOf_pairs` says that the ends of a list of pairs are the
pairs that sampling keeps, and `endsOf_wholeGraph` that a range of a network lists the
same ends, in the same order, as its adjacent pairs written down one by one.

A range that is cut in two therefore lists what its parts list, one after the other, and the
clamping of a range to the network does not disturb this.
-/

namespace Hetnet

namespace Network

/-- The nodes of the network in a range of numbers, or all of them. -/
def nodesIn (g : Network) (range : Option (NodeId × NodeId)) : List NodeId :=
  ((List.range g.nodeCount).filter fun i =>
    range.all fun (first, stop) => first.index ≤ i && i < stop.index).map .ofIndex

/-- The adjacent pairs with a first node in a range. -/
def adjacentPairs (g : Network) (direction : Direction) (range : Option (NodeId × NodeId)) :
    List (NodeId × NodeId) :=
  (g.nodesIn range).flatMap fun start => (g.neighbors start direction).map (start, ·)

theorem filter_range_eq_range' (first stop count : Nat) :
    ((List.range count).filter fun i => first ≤ i && i < stop) =
      List.range' (min first count) (min stop count - min first count) := by
  refine List.Pairwise.eq_of_mem_iff (List.pairwise_lt_range.filter _) List.pairwise_lt_range'
    fun i => ?_
  rw [List.mem_filter, List.mem_range, List.mem_range'_1, Bool.and_eq_true, decide_eq_true_iff,
    decide_eq_true_iff]
  omega

theorem nodesFrom_append {first middle stop : Nat} (hlow : first ≤ middle)
    (hhigh : middle ≤ stop) :
    nodesFrom first stop = nodesFrom first middle ++ nodesFrom middle stop := by
  obtain ⟨k, rfl⟩ := Nat.exists_eq_add_of_le hlow
  obtain ⟨l, rfl⟩ := Nat.exists_eq_add_of_le hhigh
  rw [nodesFrom, nodesFrom, nodesFrom, ← List.map_append, Nat.add_assoc, Nat.add_sub_cancel_left,
    Nat.add_sub_cancel_left, ← Nat.add_assoc, Nat.add_sub_cancel_left, List.range'_append_1]

end Network

namespace Enumerator

variable {e : Enumerator} {settings : SearchSettings}

theorem startsOf_eq_nodesIn (range : Option (NodeId × NodeId)) :
    e.startsOf range = e.network.nodesIn range := by
  cases range with
  | none =>
      simp [startsOf, Network.nodesIn, Network.nodesFrom, List.range_eq_range']
  | some bounds =>
      obtain ⟨first, stop⟩ := bounds
      show Network.nodesFrom _ _ = ((List.range _).filter fun i => _).map _
      rw [Network.nodesFrom, ← Network.filter_range_eq_range']
      rfl

theorem endsOf_pairs (list : List (NodeId × NodeId)) :
    e.endsOf settings (.pairs list) =
      (list.filter fun pair => e.keeps settings pair.1 pair.2).map
        fun pair => (pair.1, some pair.2) := by
  show list.flatMap (e.endsOfPair settings) = _
  induction list with
  | nil => rfl
  | cons pair rest ih =>
      rw [List.flatMap_cons, ih, endsOfPair, List.filter_cons]
      split <;> rfl

theorem endsOf_wholeGraph (range : Option (NodeId × NodeId)) :
    e.endsOf settings (.wholeGraph range) =
      e.endsOf settings (.pairs (e.network.adjacentPairs e.direction range)) := by
  show (e.startsOf range).flatMap (e.endsFrom settings) = _
  rw [startsOf_eq_nodesIn, endsOf_pairs, Network.adjacentPairs, List.filter_flatMap,
    List.map_flatMap]
  refine List.flatMap_congr fun start _ => ?_
  rw [endsFrom, List.filter_map, List.map_map]
  rfl

/-- Where one range ends and the next begins cannot be seen. -/
theorem startsOf_append {a b c : NodeId} (hab : a.index ≤ b.index) (hbc : b.index ≤ c.index) :
    e.startsOf (some (a, c)) = e.startsOf (some (a, b)) ++ e.startsOf (some (b, c)) := by
  show Network.nodesFrom _ _ = Network.nodesFrom _ _ ++ Network.nodesFrom _ _
  exact Network.nodesFrom_append (by omega) (by omega)

theorem endsOf_append {a b c : NodeId} (hab : a.index ≤ b.index) (hbc : b.index ≤ c.index) :
    e.endsOf settings (.wholeGraph (some (a, c))) =
      e.endsOf settings (.wholeGraph (some (a, b))) ++
        e.endsOf settings (.wholeGraph (some (b, c))) := by
  show (e.startsOf _).flatMap _ = (e.startsOf _).flatMap _ ++ (e.startsOf _).flatMap _
  rw [startsOf_append hab hbc, List.flatMap_append]

/-! ## The sums -/

theorem observed_eq_sum (request : Request) (K : MetaPath) :
    (e.occurrencesOf settings request).observed K = ((e.endsOf settings request).map fun ends =>
      (e.pathsOf (e.walksBetween settings ends)).count K).sum := by
  rw [observed_occurrencesOf, walksOf, pathsOf_walksAmong, List.count_flatMap]
  rfl

theorem length_walksOf_eq_sum (request : Request) :
    (e.walksOf settings request).length = ((e.endsOf settings request).map fun ends =>
      (e.walksBetween settings ends).length).sum := by
  rw [walksOf, walksAmong, List.length_flatMap]

theorem observed_pairs (list : List (NodeId × NodeId)) (K : MetaPath) :
    (e.occurrencesOf settings (.pairs list)).observed K =
      ((list.filter fun pair => e.keeps settings pair.1 pair.2).map fun pair =>
        (e.occurrencesOf settings (.pair pair.1 pair.2)).observed K).sum := by
  rw [observed_eq_sum, endsOf_pairs, List.map_map]
  refine congrArg _ (List.map_congr_left fun pair _ => ?_)
  rw [observed_eq_sum]
  exact (Nat.add_zero _).symm

theorem length_walksOf_pairs (list : List (NodeId × NodeId)) :
    (e.walksOf settings (.pairs list)).length =
      ((list.filter fun pair => e.keeps settings pair.1 pair.2).map fun pair =>
        (e.walksOf settings (.pair pair.1 pair.2)).length).sum := by
  rw [length_walksOf_eq_sum, endsOf_pairs, List.map_map]
  refine congrArg _ (List.map_congr_left fun pair _ => ?_)
  rw [length_walksOf_eq_sum]
  exact (Nat.add_zero _).symm

end Enumerator

/-! ## The agreement -/

/-- The kinds of request agree: a list of pairs is worth the sum of its kept pairs, a range
of the network is worth the list of its adjacent pairs, and ranges end to end are
worth the range that they make up. -/
structure Enumerator.ModesAgree (e : Enumerator) (settings : SearchSettings) : Prop where
  pairs : ∀ list : List (NodeId × NodeId),
    (∀ pair ∈ list, e.network.contains pair.1 = true ∧ e.network.contains pair.2 = true) →
    ∃ o r, ∃ single : NodeId × NodeId → Occurrences,
      e.occurrences (.pairs list) settings = .ok o ∧
      e.enumerate (.pairs list) settings = .ok r ∧
      (∀ pair ∈ list, e.occurrences (.pair pair.1 pair.2) settings = .ok (single pair)) ∧
      let kept := list.filter fun pair =>
        Sampling.keepPair e.seed pair.1 pair.2 settings.nodeSkip
      (∀ K, o.observed K = (kept.map fun pair => (single pair).observed K).sum) ∧
      o.traces = (kept.map fun pair => (single pair).traces).sum ∧
      r.traces = o.traces ∧ r.pairs = kept.length
  wholeGraph : ∀ range : Option (NodeId × NodeId),
    (∀ bounds, range = some bounds → bounds.1.index ≤ bounds.2.index) →
    ∃ o r,
      e.occurrences (.wholeGraph range) settings = .ok o ∧
      e.occurrences (.pairs (e.network.adjacentPairs e.direction range)) settings = .ok o ∧
      e.enumerate (.wholeGraph range) settings = .ok r ∧
      e.enumerate (.pairs (e.network.adjacentPairs e.direction range)) settings = .ok r
  ranges : ∀ a b c : NodeId, a.index ≤ b.index → b.index ≤ c.index →
    ∃ o o₁ o₂ r r₁ r₂,
      e.occurrences (.wholeGraph (some (a, c))) settings = .ok o ∧
      e.occurrences (.wholeGraph (some (a, b))) settings = .ok o₁ ∧
      e.occurrences (.wholeGraph (some (b, c))) settings = .ok o₂ ∧
      e.enumerate (.wholeGraph (some (a, c))) settings = .ok r ∧
      e.enumerate (.wholeGraph (some (a, b))) settings = .ok r₁ ∧
      e.enumerate (.wholeGraph (some (b, c))) settings = .ok r₂ ∧
      (∀ K, o.observed K = o₁.observed K + o₂.observed K) ∧
      o.traces = o₁.traces + o₂.traces ∧ r.traces = r₁.traces + r₂.traces ∧
      r.pairs = r₁.pairs + r₂.pairs

namespace Enumerator

variable {e : Enumerator} {settings : SearchSettings}

theorem occurrencesOf_wholeGraph (range : Option (NodeId × NodeId)) :
    e.occurrencesOf settings (.wholeGraph range) =
      e.occurrencesOf settings (.pairs (e.network.adjacentPairs e.direction range)) := by
  rw [occurrencesOf, occurrencesOf, walksOf, walksOf, endsOf_wholeGraph]
  rfl

theorem resultOf_wholeGraph (range : Option (NodeId × NodeId)) :
    e.resultOf settings (.wholeGraph range) =
      e.resultOf settings (.pairs (e.network.adjacentPairs e.direction range)) := by
  rw [resultOf, resultOf, walksOf, walksOf, endsOf_wholeGraph]

theorem length_walksOf_append {a b c : NodeId} (hab : a.index ≤ b.index)
    (hbc : b.index ≤ c.index) :
    (e.walksOf settings (.wholeGraph (some (a, c)))).length =
      (e.walksOf settings (.wholeGraph (some (a, b)))).length +
        (e.walksOf settings (.wholeGraph (some (b, c)))).length := by
  rw [length_walksOf_eq_sum, endsOf_append hab hbc, List.map_append, List.sum_append,
    ← length_walksOf_eq_sum, ← length_walksOf_eq_sum]

/-- The kinds of request agree in every readable network that lists only nodes of its own. -/
theorem modesAgree_of_closed (hvalid : settings.validate = .ok ())
    (hroom : Trace.reserve settings.maxLength = .ok ()) (hread : e.network.Readable e.direction)
    (hclosed : ∀ node, ∀ next ∈ e.network.neighbors node e.direction,
      e.network.contains next = true)
    (haccept : ∀ sink, e.sink = some sink → ∀ dump, sink.takes dump = .ok ()) :
    e.ModesAgree settings := by
  have hanswer : ∀ {request : Request}, e.Knows request → e.CanAnswer settings request :=
    fun hknows => ⟨hvalid, hroom, hknows, hread, haccept⟩
  refine ⟨fun list hlist => ?_, fun range hrange => ?_, fun a b c hab hbc => ?_⟩
  · refine ⟨_, _, fun pair => e.occurrencesOf settings (.pair pair.1 pair.2),
      occurrences_eq_ok (hanswer hlist), enumerate_eq_ok (hanswer hlist),
      fun pair hpair => occurrences_eq_ok (hanswer (hlist pair hpair)), observed_pairs list,
      length_walksOf_pairs list, rfl, ?_⟩
    show (e.endsOf settings (.pairs list)).length = _
    rw [endsOf_pairs, List.length_map]
    rfl
  -- The adjacent pairs name known nodes, so the list of them is not refused either.
  · have hknows : e.Knows (.wholeGraph range) := by
      cases range with
      | none => trivial
      | some bounds => exact hrange bounds rfl
    have hadjacent : e.Knows (.pairs (e.network.adjacentPairs e.direction range)) := by
      intro pair hpair
      obtain ⟨start, hstart, hmem⟩ := List.mem_flatMap.mp hpair
      obtain ⟨stop, hstop, rfl⟩ := List.mem_map.mp hmem
      rw [← startsOf_eq_nodesIn] at hstart
      exact ⟨contains_of_mem_startsOf hstart, hclosed start stop hstop⟩
    refine ⟨_, _, occurrences_eq_ok (hanswer hknows), ?_, enumerate_eq_ok (hanswer hknows), ?_⟩
    · rw [occurrencesOf_wholeGraph]
      exact occurrences_eq_ok (hanswer hadjacent)
    · rw [resultOf_wholeGraph]
      exact enumerate_eq_ok (hanswer hadjacent)
  · have hac : e.CanAnswer settings (.wholeGraph (some (a, c))) := hanswer (hab.trans hbc)
    have hfirst : e.CanAnswer settings (.wholeGraph (some (a, b))) := hanswer hab
    have hsecond : e.CanAnswer settings (.wholeGraph (some (b, c))) := hanswer hbc
    refine ⟨_, _, _, _, _, _, occurrences_eq_ok hac, occurrences_eq_ok hfirst,
      occurrences_eq_ok hsecond, enumerate_eq_ok hac, enumerate_eq_ok hfirst,
      enumerate_eq_ok hsecond, fun K => ?_, length_walksOf_append hab hbc,
      length_walksOf_append hab hbc, ?_⟩
    · rw [observed_eq_sum, observed_eq_sum, observed_eq_sum, endsOf_append hab hbc,
        List.map_append, List.sum_append]
    · show (e.endsOf settings (.wholeGraph (some (a, c)))).length = _
      rw [endsOf_append hab hbc, List.length_append]
      rfl

/-- The kinds of request agree in every graph that a builder can make. -/
theorem modesAgree_of_built {calls : List BuilderCall}
    (hnetwork : e.network = (GraphBuilder.ofCalls calls).build.network)
    (hvalid : settings.validate = .ok ()) (hroom : Trace.reserve settings.maxLength = .ok ())
    (haccept : ∀ sink, e.sink = some sink → ∀ dump, sink.takes dump = .ok ()) :
    e.ModesAgree settings := by
  refine modesAgree_of_closed hvalid hroom ?_ ?_ haccept
  · rw [hnetwork]
    exact GraphBuilder.readable_build _ _
  · intro node next hnext
    rw [hnetwork] at hnext ⊢
    exact GraphBuilder.contains_of_mem_neighbors (GraphBuilder.consistent_ofCalls calls) hnext

/-- A graph of two nodes and an edge, with every second pair and every second edge
skipped. -/
theorem modesAgree_of_built_edge :
    ModesAgree
      { network := (GraphBuilder.ofCalls [.addNodeWithLabels ⟨7⟩ [⟨0⟩],
          .addNodeWithLabels ⟨3⟩ [⟨1⟩, ⟨2⟩], .addEdgeWithType ⟨7⟩ ⟨3⟩ ⟨0⟩]).build.network }
      { maxLength := 3, nodeSkip := 0.5, edgeSkip := 0.5 } := by
  refine modesAgree_of_built rfl (SearchSettings.validate_eq_ok.mpr ?_) (by decide)
    fun sink hsink => by cases hsink
  decide +kernel

end Enumerator

end Hetnet
