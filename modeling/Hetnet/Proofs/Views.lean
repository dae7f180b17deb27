import Mathlib
import Hetnet.Enumeration

/-!
# A request sees a network in one direction

An enumerator has a direction, and whatever it reads of adjacency it reads in this direction:
the neighbors that a visit goes on to, in the order in which its draws are made, and the end
nodes of the pairs of a whole graph. `Network.along` is what is left of a network for a
given direction. The proofs below walk through every layer, the visits by induction on what
remains of the length bound, to show that an enumerator and its view give the very same
answers, failures and dumps included (`Enumerator.occurrences_along`,
`Enumerator.enumerateWithDumps_along`). Sampling is no exception: the draws of a visit are made
from its seed for its neighbors in order, and both are the same.

Hence enumerators of two networks cannot be told apart if their views agree, even when the
networks have nothing in common in the other directions.
-/

namespace Hetnet

/-- The network with nothing but the neighbors in one direction, which it gives for all of
them. -/
def Network.along (g : Network) (direction : Direction) : Network :=
  { g with neighbors := fun node _ => g.neighbors node direction }

/-! ## Searches -/

namespace Search

variable {C : Type} [Collector C]

/-- The search in the view of its network. -/
def along (s : Search) : Search :=
  { s with network := s.network.along s.direction, direction := .outgoing }

theorem visit_along (s : Search) (remaining : Nat) (node : NodeId) (seed : UInt64) (trace : Trace)
    (found : Findings C) :
    s.along.visit remaining node seed trace found = s.visit remaining node seed trace found := by
  induction remaining generalizing node seed trace found with
  | zero => rfl
  | succ remaining ih =>
      rw [visit, visit]
      simp only [ih]
      rfl

theorem run_along (s : Search) (start : NodeId) (seed : UInt64) :
    s.along.run (C := C) start seed = s.run start seed := by
  rw [run, run]
  simp only [visit_along]
  rfl

end Search

/-! ## Requests -/

namespace Enumerator

variable {C : Type} [Collector C]

/-- The enumerator of the view of its network. -/
def along (e : Enumerator) : Enumerator :=
  { e with network := e.network.along e.direction, direction := .outgoing }

theorem search_along (e : Enumerator) (settings : SearchSettings) (stop : Option NodeId) :
    e.along.search settings stop = (e.search settings stop).along :=
  rfl

theorem searchFrom_along (e : Enumerator) (settings : SearchSettings) (start : NodeId)
    (stop : Option NodeId) :
    e.along.searchFrom (C := C) settings start stop = e.searchFrom settings start stop := by
  rw [searchFrom, searchFrom]
  simp only [search_along, Search.run_along]
  rfl

theorem searchPair_along (e : Enumerator) (settings : SearchSettings) (start stop : NodeId) :
    e.along.searchPair (C := C) settings start stop = e.searchPair settings start stop := by
  rw [searchPair, searchPair, searchFrom_along]
  rfl

theorem searchNeighbors_along (e : Enumerator) (settings : SearchSettings) (start : NodeId) :
    e.along.searchNeighbors (C := C) settings start = e.searchNeighbors settings start := by
  rw [searchNeighbors, searchNeighbors]
  simp only [searchFrom_along]
  rfl

theorem collect_along (e : Enumerator) (request : Request) (settings : SearchSettings) :
    e.along.collect (C := C) request settings = e.collect request settings := by
  unfold collect
  cases request with
  | pair start stop =>
      simp only [searchFrom_along]
      rfl
  | walksFrom start =>
      simp only [searchFrom_along]
      rfl
  | wholeGraph range =>
      simp only [searchNeighbors_along]
      rfl
  | pairs list =>
      simp only [searchPair_along]
      rfl

theorem enumerateWithDumps_along (e : Enumerator) (request : Request)
    (settings : SearchSettings) :
    e.along.enumerateWithDumps request settings = e.enumerateWithDumps request settings := by
  rw [enumerateWithDumps, enumerateWithDumps, collect_along]

theorem occurrences_along (e : Enumerator) (request : Request) (settings : SearchSettings) :
    e.along.occurrences request settings = e.occurrences request settings := by
  rw [occurrences, occurrences, collect_along]

/-- Two enumerators that give the same answer to every request, be it a result or a failure. -/
structure AnswersLike (e e' : Enumerator) : Prop where
  occurrences : ∀ request settings,
    e.occurrences request settings = e'.occurrences request settings
  enumerateWithDumps : ∀ request settings,
    e.enumerateWithDumps request settings = e'.enumerateWithDumps request settings
  enumerate : ∀ request settings, e.enumerate request settings = e'.enumerate request settings

/-- Enumerators whose views are the same cannot be told apart. -/
theorem answersLike_of_along {e e' : Enumerator} (h : e.along = e'.along) : e.AnswersLike e' := by
  have hdumps : ∀ request settings,
      e.enumerateWithDumps request settings = e'.enumerateWithDumps request settings := by
    intro request settings
    rw [← enumerateWithDumps_along e, h, enumerateWithDumps_along]
  refine ⟨fun request settings => ?_, hdumps, fun request settings => ?_⟩
  · rw [← occurrences_along e, h, occurrences_along]
  · rw [enumerate, enumerate, hdumps]

end Enumerator

end Hetnet
