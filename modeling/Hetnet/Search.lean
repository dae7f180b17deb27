import Hetnet.Collector
import Hetnet.Network
import Hetnet.Sampling
import Hetnet.Settings
import Hetnet.Trace

/-!
# Searching for walks

A search starts at one node and follows every walk up to a length bound. A walk that
is looking for an end node stops where it first reaches that node; a walk that is not is
recorded wherever it comes. Recording a walk means listing the meta-paths that
its trace stands for.

Walks are followed depth first, the neighbors of a node in the order in which the
network lists them. Edges can be skipped at random; a visit draws for all its edges
from a seed of its own, so what is skipped in one branch has no influence on another.
-/

namespace Hetnet

/-- What a search looks for. -/
structure Search where
  network : Network
  direction : Direction
  /-- The probability with which an edge is skipped. -/
  edgeSkip : Float
  /-- Where walks end; `none` if they may end anywhere. -/
  target : Option NodeId
  maxLength : Nat
  mode : LengthMode

/-- What a search has recorded. -/
structure Findings (C : Type) where
  collector : C
  /-- How many walks were recorded. -/
  traces : Nat
  /-- How many meta-paths they stand for, counted in a word. The count wraps and no search fails
  for it, unlike in a build that checks its arithmetic: there a trace of 2^64 paths crashes. -/
  instances : UInt64

namespace Findings

variable {C : Type} [Collector C]

/-- Nothing yet. -/
def empty : Findings C := ⟨Collector.empty, 0, 0⟩

/-- Records a walk. -/
def record (found : Findings C) (trace : Trace) : Findings C :=
  ⟨Collector.recordAll found.collector trace.expand, found.traces + 1,
    found.instances + trace.combinations⟩

end Findings

namespace Search

/-- Whether a walk that has reached a node may be recorded. -/
def arrives (s : Search) (node : NodeId) : Bool := s.target.all (· = node)

/-- Whether a walk of this trace that has reached a node is recorded. -/
def records (s : Search) (node : NodeId) (trace : Trace) : Bool :=
  s.arrives node && s.mode.accepts trace.hops s.maxLength

/-- The neighbors to which a visit goes on, with the seeds of the visits to them. -/
def kept (s : Search) (node : NodeId) (seed : UInt64) : List (NodeId × UInt64) :=
  (Branch.ofSeed s.edgeSkip seed).kept (s.network.neighbors node s.direction)

/-- Follows all walks that go on from a node by at most `remaining` steps. -/
def visit {C : Type} [Collector C] (s : Search) (remaining : Nat) (node : NodeId)
    (seed : UInt64) (trace : Trace) (found : Findings C) : Except Failure (Findings C) :=
  match remaining with
  | 0 => .ok found
  | remaining + 1 =>
      (s.kept node seed).foldlM
        (fun found (next, childSeed) => do
          let edgeType ← s.network.edgeType node next
          let labels ← s.network.labels next
          let trace := trace.push edgeType labels
          let found := if s.records next trace then found.record trace else found
          if s.target = some next then return found
          else visit s remaining next childSeed trace found)
        found

/-- Follows all walks from a node. -/
def run {C : Type} [Collector C] (s : Search) (start : NodeId) (seed : UInt64) :
    Except Failure (Findings C) := do
  Trace.reserve s.maxLength
  let labels ← s.network.labels start
  s.visit s.maxLength start seed { start := labels } .empty

end Search

end Hetnet
