import Hetnet.Network
import Hetnet.Rows

/-!
# Networks written down as lists

The smallest network: the lists that it answers with are written down one by one, and
nobody checks that they fit together. It serves to try an algorithm on
a network that no builder would make. A missing list is empty, and at most one node
has labels that cannot be read.
-/

namespace Hetnet

/-- The lists of a network. -/
structure ListedNetwork where
  /-- The labels of each node; there are as many nodes as lists. -/
  labels : List (List LabelId)
  outgoing : List (List NodeId) := []
  incoming : List (List NodeId) := []
  both : List (List NodeId) := []
  /-- The edge types of arcs; the last entry for an arc holds. -/
  edgeTypes : List (Arc × EdgeTypeId) := []
  labelCount : Nat := 0
  /-- The node whose labels cannot be read. -/
  poisoned : Option NodeId := none

namespace ListedNetwork

/-- The edge type that the list gives to an arc. -/
def edgeTypeOf (lists : ListedNetwork) (arc : Arc) : Option EdgeTypeId :=
  (lists.edgeTypes.findRev? fun entry => entry.1 = arc).map Prod.snd

/-- The network that answers with the lists. -/
def network (lists : ListedNetwork) : Network where
  nodeCount := lists.labels.length
  labelCount := lists.labelCount
  edgeTypeCount := 0
  neighbors node direction :=
    let rows := match direction with
      | .outgoing => lists.outgoing
      | .incoming => lists.incoming
      | .both => lists.both
    (rows[node.index]?).getD []
  labels node :=
    if lists.poisoned = some node then
      .error (.crash s!"labels of node {node.text} are poisoned")
    else
      .ok ((lists.labels[node.index]?).getD [])
  edgeType src dst :=
    match (lists.edgeTypeOf ⟨src, dst⟩).or (lists.edgeTypeOf ⟨dst, src⟩) with
    | some edgeType => .ok edgeType
    | none => .error (.error (.edgeNotFound src dst))
  externalId := .ofNode

end ListedNetwork

end Hetnet
