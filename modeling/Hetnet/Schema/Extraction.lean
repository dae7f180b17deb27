import Hetnet.Network
import Hetnet.Schema
import Hetnet.Workers

/-!
# Extracting a schema

The nodes are cut into blocks, each block is scanned for the edges that leave its nodes,
and the schemas of the blocks are united. Every edge leaves exactly one node, hence
is seen in exactly one block, and union does not mind the order: the schema of
a network does not depend on how it was cut.
-/

namespace Hetnet

namespace Schema

/-- Links every label of one node with every label of an adjacent one. -/
def recordAll (s : Schema) (labels neighborLabels : List LabelId) (edgeType : EdgeTypeId) :
    Except Error Schema :=
  neighborLabels.foldlM
    (fun s b => labels.foldlM (fun s a => s.record a b edgeType) s) s

/-- Records the edges that leave a node. -/
def scanNode (g : Network) (s : Schema) (node : NodeId) : Except Failure Schema := do
  let labels ← g.labels node
  (g.neighbors node .outgoing).foldlM
    (fun s neighbor => do
      let edgeType ← g.edgeType node neighbor
      let neighborLabels ← g.labels neighbor
      s.recordAll labels neighborLabels edgeType) s

/-- The schema of the edges that leave the nodes of a block. Its rows are there from the start. -/
def scan (g : Network) (block : Block) : Except Failure Schema := do
  reserve g.labelCount rowBytes
  (Network.nodesFrom block.start block.stop).foldlM (scanNode g) (empty g.labelCount)

/-- The schema of a network, computed in `parts` blocks. -/
def extract (g : Network) (parts : Nat) (reports : Reporting := .lowest) :
    Except Failure Schema := do
  if parts = 0 then
    throw (.error (.invalidParameter "partitions" "must be greater than zero"))
  reserve parts Block.bytes
  let partials ← runTasks (fun _ => scan g) (Block.partition g.nodeCount parts) reports
  return partials.foldl merge (empty g.labelCount)

end Schema

end Hetnet
