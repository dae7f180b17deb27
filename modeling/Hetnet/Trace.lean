import Hetnet.MetaPath
import Hetnet.Capacity

/-!
# Traces

A node can carry several labels, so one walk stands for several meta-paths: one for
each choice of a label at every node. A trace keeps what is needed to list them, the
labels of each visited node and the edge type that led there.

The search extends a trace on the way down and forgets the extension on the way back,
so steps are kept latest first.
-/

namespace Hetnet

/-- A walk as the search records it. -/
structure Trace where
  /-- The labels of the first node. -/
  start : List LabelId
  /-- The edge types taken and the labels of the nodes reached, latest first. -/
  steps : List (EdgeTypeId × List LabelId) := []
deriving Inhabited

namespace Trace

/-- The trace extended by a step. -/
def push (t : Trace) (edgeType : EdgeTypeId) (labels : List LabelId) : Trace :=
  { t with steps := (edgeType, labels) :: t.steps }

/-- The number of steps. -/
def hops (t : Trace) : Nat := t.steps.length

/-- The number of meta-paths that the trace stands for, counted in a word. A product of the
numbers of labels that does not fit wraps; a build that checks its arithmetic would crash. -/
def combinations (t : Trace) : UInt64 :=
  t.steps.foldr (fun (_, labels) count => count * .ofNat labels.length) (.ofNat t.start.length)

/-- Every choice of one label per step, for steps in walking order; the last step
varies fastest. -/
def choices : List (EdgeTypeId × List LabelId) → List (List (EdgeTypeId × LabelId))
  | [] => [[]]
  | (edgeType, labels) :: rest =>
      labels.flatMap fun label => (choices rest).map ((edgeType, label) :: ·)

/-- The meta-paths that the trace stands for, one per choice of labels. -/
def expand (t : Trace) : List MetaPath :=
  t.start.flatMap fun label => (choices t.steps.reverse).map (MetaPath.ofSteps label)

/-- The size of one step in the buffer that holds a trace. -/
def stepBytes : Nat := 24

/-- Requests room for a trace of at most `maxHops` steps and the start node. The sum fits in a
word for every bound but the largest one. For that bound the request fails here, as it does in
a build that checks its arithmetic; a build that wraps would ask for no entries and go on. -/
def reserve (maxHops : Nat) : Except Failure Unit := Hetnet.reserve (maxHops + 1) stepBytes

end Trace

end Hetnet
