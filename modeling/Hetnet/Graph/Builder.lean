import Hetnet.Graph

/-!
# Building a graph

A graph grows by nodes and edges in any order, as long as an edge comes after the two
nodes that it joins. Every call answers with a result and with the builder after
the call, also when the result is an error: the names of a call are numbered before
the call is checked, so a refused call can leave new names behind, and nothing else.

Labels and edge types can be given by name, in which case the vocabularies number
them, or directly by id. The counts of the built graph cover both.
-/

namespace Hetnet

/-- A graph under construction. -/
structure GraphBuilder where
  labelNames : Vocabulary .label := ∅
  edgeTypeNames : Vocabulary .edgeType := ∅
  nodes : NodeTable := ∅
  /-- The labels of each node, strictly increasing. -/
  nodeLabels : Array (List LabelId) := #[]
  edgeTypes : Std.ExtTreeMap Arc EdgeTypeId := ∅
  /-- One more than the largest label in use. -/
  labelBound : Nat := 0
  /-- One more than the largest edge type in use. -/
  edgeTypeBound : Nat := 0

namespace GraphBuilder

instance : Inhabited GraphBuilder := ⟨{}⟩

/-- How many nodes have been added. -/
def nodeCount (b : GraphBuilder) : Nat := b.nodeLabels.size

/-- Adds a node whose labels are given by their ids, in any order and with repetitions. -/
def addNodeWithLabels (b : GraphBuilder) (external : ExternalId) (labels : List LabelId) :
    Except Error NodeId × GraphBuilder :=
  let labels := Rows.ascending labels
  match labels.getLast? with
  | none => (.error (.emptyLabelSet external), b)
  | some largest =>
      match b.nodes.insert external with
      | .error error => (.error error, b)
      | .ok (node, nodes) =>
          (.ok node,
            { b with
              nodes
              nodeLabels := b.nodeLabels.push labels
              labelBound := max b.labelBound (largest.index + 1) })

/-- Adds a node whose labels are given by name. -/
def addNode (b : GraphBuilder) (external : ExternalId) (names : List String) :
    Except Error NodeId × GraphBuilder :=
  let (labels, labelNames) := b.labelNames.internAll names
  addNodeWithLabels { b with labelNames } external labels

/-- The node of an external id that has been added. -/
def resolve (b : GraphBuilder) (external : ExternalId) : Except Error NodeId :=
  match b.nodes.node? external with
  | some node => .ok node
  | none => .error (.unknownExternal external)

/-- The arc between two external ids; the source is looked up first. -/
def resolveArc (b : GraphBuilder) (src dst : ExternalId) : Except Error Arc := do
  let src ← b.resolve src
  let dst ← b.resolve dst
  return ⟨src, dst⟩

/-- The edge type that an arc or its reverse already has. -/
def existing? (b : GraphBuilder) (arc : Arc) : Option EdgeTypeId :=
  (b.edgeTypes[arc]?).or b.edgeTypes[arc.reverse]?

/-- Adds an arc. One unordered pair of nodes has one edge type, so that a step
against an edge finds it too. -/
def addArc (b : GraphBuilder) (arc : Arc) (edgeType : EdgeTypeId) :
    Except Error Unit × GraphBuilder :=
  if (b.existing? arc).all (· = edgeType) then
    (.ok (),
      { b with
        edgeTypes := b.edgeTypes.insert arc edgeType
        edgeTypeBound := max b.edgeTypeBound (edgeType.index + 1) })
  else
    (.error (.conflictingEdgeType arc.src arc.dst), b)

/-- Adds an edge whose type is given by its id. -/
def addEdgeWithType (b : GraphBuilder) (src dst : ExternalId) (edgeType : EdgeTypeId) :
    Except Error Unit × GraphBuilder :=
  match b.resolveArc src dst with
  | .error error => (.error error, b)
  | .ok arc => b.addArc arc edgeType

/-- Adds an edge whose type is given by name. -/
def addEdge (b : GraphBuilder) (src dst : ExternalId) (name : String) :
    Except Error Unit × GraphBuilder :=
  match b.resolveArc src dst with
  | .error error => (.error error, b)
  | .ok arc =>
      let (edgeType, edgeTypeNames) := b.edgeTypeNames.intern name
      addArc { b with edgeTypeNames } arc edgeType

/-- The arcs added so far, in order. -/
def arcs (b : GraphBuilder) : List Arc := b.edgeTypes.keys

/-- Freezes the builder. -/
def build (b : GraphBuilder) : Graph :=
  let arcs := b.arcs
  let reversed := arcs.map Arc.reverse
  { nodeLabels := .ofRows b.nodeLabels.toList
    outgoing := .ofArcs b.nodeCount arcs
    incoming := .ofArcs b.nodeCount reversed
    undirected := .ofArcs b.nodeCount (arcs ++ reversed)
    edgeTypes := b.edgeTypes
    labelNames := b.labelNames
    edgeTypeNames := b.edgeTypeNames
    nodes := b.nodes
    labelCount := max b.labelBound b.labelNames.size
    edgeTypeCount := max b.edgeTypeBound b.edgeTypeNames.size }

end GraphBuilder

end Hetnet
