import Hetnet.Network
import Hetnet.Numbering
import Hetnet.Rows

/-!
# Graphs

A graph is a network frozen for reading. Each of the three directions has its
own adjacency, so that a step of a walk is one look-up; the edge types are kept once,
by arc. An unordered pair of nodes has at most one edge type, so the type of a step
against an edge is found under the reversed arc.

Graphs are made by `Hetnet.Graph.Builder` and never change afterwards.
-/

namespace Hetnet

/-- A network stored for reading. -/
structure Graph where
  nodeLabels : Rows LabelId := {}
  outgoing : Adjacency := {}
  incoming : Adjacency := {}
  undirected : Adjacency := {}
  edgeTypes : Std.ExtTreeMap Arc EdgeTypeId := ∅
  /-- The names of the labels that were added by name. -/
  labelNames : Vocabulary .label := ∅
  /-- The names of the edge types that were added by name. -/
  edgeTypeNames : Vocabulary .edgeType := ∅
  /-- The external ids of the nodes. -/
  nodes : NodeTable := ∅
  labelCount : Nat := 0
  edgeTypeCount : Nat := 0

namespace Graph

instance : Inhabited Graph := ⟨{}⟩

/-- How many nodes there are. -/
def nodeCount (g : Graph) : Nat := g.nodeLabels.rowCount

/-- How many edges there are. -/
def edgeCount (g : Graph) : Nat := g.outgoing.arcCount

/-- The nodes adjacent to a node. -/
def neighbors (g : Graph) (node : NodeId) : Direction → List NodeId
  | .outgoing => g.outgoing.neighbors node
  | .incoming => g.incoming.neighbors node
  | .both => g.undirected.neighbors node

/-- The labels of a node. -/
def labels (g : Graph) (node : NodeId) : List LabelId := g.nodeLabels.row node.index

/-- The edge type that joins two nodes, whichever way the edge points. -/
def edgeType (g : Graph) (src dst : NodeId) : Except Error EdgeTypeId :=
  match (g.edgeTypes[Arc.mk src dst]?).or g.edgeTypes[Arc.mk dst src]? with
  | some edgeType => .ok edgeType
  | none => .error (.edgeNotFound src dst)

/-- The external id of a node, which is its dense number if it is not in the graph. -/
def externalId (g : Graph) (node : NodeId) : ExternalId :=
  (g.nodes.external? node).getD (.ofNode node)

/-- The node of an external id. -/
def node (g : Graph) (external : ExternalId) : Except Error NodeId :=
  match g.nodes.node? external with
  | some node => .ok node
  | none => .error (.unknownExternal external)

/-- The edges with their types, read off the rows of the outgoing adjacency. -/
def edges (g : Graph) : List (Arc × EdgeTypeId) :=
  (Network.nodesFrom 0 g.nodeCount).flatMap fun src =>
    (g.outgoing.neighbors src).filterMap fun dst =>
      (g.edgeTypes[Arc.mk src dst]?).map (Prod.mk ⟨src, dst⟩)

/-- The nodes that carry a label, in increasing order. -/
def nodesWithLabel (g : Graph) (label : LabelId) : List NodeId :=
  (Network.nodesFrom 0 g.nodeCount).filter fun node => (g.labels node).contains label

/-- The graph as a network to walk. -/
def network (g : Graph) : Network where
  nodeCount := g.nodeCount
  labelCount := g.labelCount
  edgeTypeCount := g.edgeTypeCount
  neighbors := g.neighbors
  labels node := .ok (g.labels node)
  edgeType src dst := liftM (g.edgeType src dst)
  externalId := g.externalId

end Graph

end Hetnet
