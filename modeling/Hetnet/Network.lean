import Hetnet.Error

/-!
# Networks

Everything that walks a heterogeneous network asks it the same few questions: which
nodes are adjacent, which labels a node carries, which edge type joins two
nodes. A `Network` is the answers to these questions, and nothing below this module
depends on how they are stored.

The lists are taken as they are: they may be unsorted, hold repetitions or name nodes
that do not exist. Reading labels and edge types can fail, and the failure is
passed on unchanged.
-/

namespace Hetnet

/-- Which adjacent nodes a walk may step to. -/
inductive Direction
  /-- Along the edges. -/
  | outgoing
  /-- Against the edges. -/
  | incoming
  /-- Along or against the edges. -/
  | both
deriving DecidableEq, Inhabited

/-- The form shown to a developer. -/
def Direction.inspect : Direction → String
  | .outgoing => "Outgoing"
  | .incoming => "Incoming"
  | .both => "Both"

/-- A heterogeneous network, given by its answers. -/
structure Network where
  /-- The nodes are numbered below this. -/
  nodeCount : Nat
  /-- The labels are numbered below this. -/
  labelCount : Nat
  /-- The edge types are numbered below this. -/
  edgeTypeCount : Nat
  neighbors : NodeId → Direction → List NodeId
  labels : NodeId → Except Failure (List LabelId)
  edgeType : NodeId → NodeId → Except Failure EdgeTypeId
  externalId : NodeId → ExternalId

namespace Network

/-- Whether a node is in the network. -/
def contains (g : Network) (node : NodeId) : Bool := node.index < g.nodeCount

/-- Refuses a node that is not in the network. -/
def check (g : Network) (node : NodeId) : Except Error Unit :=
  if g.contains node then .ok () else .error (.unknownNode node)

/-- The nodes from position `first` to position `stop`, in order. -/
def nodesFrom (first stop : Nat) : List NodeId :=
  (List.range' first (stop - first)).map .ofIndex

end Network

end Hetnet
