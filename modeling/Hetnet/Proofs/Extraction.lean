import Mathlib
import Hetnet.Proofs.FrozenGraphs
import Hetnet.Proofs.RequestModes
import Hetnet.Proofs.SchemaLinks
import Hetnet.Proofs.Tilings
import Hetnet.Schema.Extraction

/-!
# The schema of a network is what its edges say

The blocks of a partition tile the nodes (`Block.flatMap_nodesFrom_partition`), each
node is scanned for the edges that leave it, and each edge links every label at one end
with every label at the other. So the links of the extracted schema are those of the
edges, in both orders, and no trace of the partition is left: empty blocks, blocks of one
node and the remainder in the last block all come to the same union.

In a built graph every label is below the label count, hence nothing that is recorded
is refused.
-/

namespace Hetnet

/-! ## Blocks -/

namespace Block

/-- The blocks of a partition hold every node once, in order. -/
theorem flatMap_nodesFrom_partition (length : Nat) {parts : Nat} (h : parts ≠ 0) :
    ((partition length parts).flatMap fun block => Network.nodesFrom block.start block.stop) =
      Network.nodesFrom 0 length := by
  have hnodes := congrArg (List.map (TypedId.ofIndex : Nat → NodeId))
    (adjoin_partition length h).flatMap_positions
  rw [List.map_flatMap] at hnodes
  exact hnodes

end Block

/-! ## Scanning -/

namespace Network

variable (g : Network)

/-- A link that an edge makes: between a label at one end and a label at the other. -/
def LinksAlong (node next : NodeId) (a b : LabelId) (edgeType : EdgeTypeId) : Prop :=
  edgeType = g.edgeTypeOf node next ∧
    (a ∈ g.labelsOf node ∧ b ∈ g.labelsOf next ∨ b ∈ g.labelsOf node ∧ a ∈ g.labelsOf next)

/-- A link that an edge from a node makes. -/
def LinksFrom (node : NodeId) (a b : LabelId) (edgeType : EdgeTypeId) : Prop :=
  ∃ next ∈ g.neighbors node .outgoing, g.LinksAlong node next a b edgeType

/-- The labels of every node are in the vocabulary. -/
def LabelsBounded : Prop :=
  ∀ node, ∀ label ∈ g.labelsOf node, label.index < g.labelCount

end Network

namespace Schema

theorem Adds.congr {s grown : Schema} {links links' : LabelId → LabelId → EdgeTypeId → Prop}
    (h : s.Adds grown links) (hlinks : ∀ a b edgeType, links a b edgeType ↔ links' a b edgeType) :
    s.Adds grown links' :=
  ⟨h.labelCount, fun a b edgeType => (h.contains_iff a b edgeType).trans
    (or_congr_right (hlinks a b edgeType))⟩

theorem recordAll_eq_ok {count : Nat} {labels neighborLabels : List LabelId}
    (hlabels : ∀ a ∈ labels, a.index < count) (hneighbor : ∀ b ∈ neighborLabels, b.index < count)
    (edgeType : EdgeTypeId) {s : Schema} (hs : s.labelCount = count) :
    ∃ grown, s.recordAll labels neighborLabels edgeType = .ok grown ∧
      s.Adds grown fun x y type =>
        ∃ b ∈ neighborLabels, ∃ a ∈ labels, Joins a b edgeType x y type := by
  refine foldlM_adds (fun b hb s hs => ?_) hs
  refine foldlM_adds (fun a ha s hs => ?_) hs
  exact record_eq_ok (hs.symm ▸ hlabels a ha) (hs.symm ▸ hneighbor b hb) edgeType

variable {g : Network}

theorem scanNode_eq_ok (hread : g.Readable .outgoing) (hbound : g.LabelsBounded) {node : NodeId}
    (hnode : g.contains node = true) {s : Schema} (hs : s.labelCount = g.labelCount) :
    ∃ grown, scanNode g s node = .ok grown ∧ s.Adds grown (g.LinksFrom node) := by
  rw [scanNode, Network.labels_eq_labelsOf (hread.labels_of_contains node hnode)]
  refine foldlM_adds (fun next hnext s hs => ?_) hs
  rw [Network.edgeType_eq_edgeTypeOf (hread.edgeType node next hnext),
    Network.labels_eq_labelsOf (hread.labels_of_mem node next hnext)]
  obtain ⟨grown, hgrown, hadds⟩ := recordAll_eq_ok (hbound node) (hbound next)
    (g.edgeTypeOf node next) hs
  refine ⟨grown, ?_, hadds.congr fun x y type => ?_⟩
  · show (liftM (s.recordAll _ _ _) : Except Failure Schema) = _
    rw [hgrown]
    rfl
  · unfold Joins Network.LinksAlong
    constructor
    · intro hlink
      obtain ⟨b, hb, a, ha, rfl, ⟨rfl, rfl⟩ | ⟨rfl, rfl⟩⟩ := hlink
      · exact ⟨rfl, Or.inl ⟨ha, hb⟩⟩
      · exact ⟨rfl, Or.inr ⟨ha, hb⟩⟩
    · intro hlink
      obtain ⟨rfl, ⟨hx, hy⟩ | ⟨hy, hx⟩⟩ := hlink
      · exact ⟨y, hy, x, hx, rfl, Or.inl ⟨rfl, rfl⟩⟩
      · exact ⟨x, hx, y, hy, rfl, Or.inr ⟨rfl, rfl⟩⟩

/-- The schema that the scan of a block ends with; an empty one if it fails. -/
def scanned (g : Network) (block : Block) : Schema :=
  match scan g block with
  | .ok s => s
  | .error _ => {}

/-- The links of the edges that leave the nodes of a block. -/
def LinksOf (g : Network) (block : Block) (a b : LabelId) (edgeType : EdgeTypeId) : Prop :=
  ∃ node ∈ Network.nodesFrom block.start block.stop, g.LinksFrom node a b edgeType

theorem scan_eq_ok (hread : g.Readable .outgoing) (hbound : g.LabelsBounded)
    (hroom : reserve g.labelCount rowBytes = .ok ()) {block : Block}
    (hblock : ∀ node ∈ Network.nodesFrom block.start block.stop, g.contains node = true) :
    scan g block = .ok (scanned g block) ∧
      (empty g.labelCount).Adds (scanned g block) (LinksOf g block) := by
  obtain ⟨found, hfound, hadds⟩ := foldlM_adds
    (fun node hnode s hs => scanNode_eq_ok hread hbound (hblock node hnode) hs)
    (labelCount_empty g.labelCount)
  have hscan : scan g block = .ok found := by
    rw [scan, hroom]
    exact hfound
  rw [scanned, hscan]
  exact ⟨rfl, hadds⟩

/-! ## Extracting -/

theorem contains_of_mem_partition {parts : Nat} (hparts : parts ≠ 0) {block : Block}
    (hblock : block ∈ Block.partition g.nodeCount parts) :
    ∀ node ∈ Network.nodesFrom block.start block.stop, g.contains node = true := by
  intro node hnode
  have hmem : node ∈ (Block.partition g.nodeCount parts).flatMap
      fun block => Network.nodesFrom block.start block.stop :=
    List.mem_flatMap.mpr ⟨block, hblock, hnode⟩
  rw [Block.flatMap_nodesFrom_partition g.nodeCount hparts] at hmem
  exact decide_eq_true (Network.mem_nodesFrom_zero.mp hmem)

theorem exists_linksOf_partition {parts : Nat} (hparts : parts ≠ 0) (a b : LabelId)
    (edgeType : EdgeTypeId) :
    (∃ block ∈ Block.partition g.nodeCount parts, LinksOf g block a b edgeType) ↔
      ∃ node, g.contains node = true ∧ g.LinksFrom node a b edgeType := by
  constructor
  · intro hlink
    obtain ⟨block, hblock, node, hnode, hlink⟩ := hlink
    exact ⟨node, contains_of_mem_partition hparts hblock node hnode, hlink⟩
  · intro hlink
    obtain ⟨node, hnode, hlink⟩ := hlink
    -- Every node is in some block.
    have hmem := Network.mem_nodesFrom_zero.mpr (of_decide_eq_true hnode)
    rw [← Block.flatMap_nodesFrom_partition g.nodeCount hparts] at hmem
    obtain ⟨block, hblock, hnode⟩ := List.mem_flatMap.mp hmem
    exact ⟨block, hblock, node, hnode, hlink⟩

/-- Merging the schemas of blocks adds the links of all of them. -/
theorem adds_foldl_scanned {blocks : List Block} (h : ∀ block ∈ blocks,
      (empty g.labelCount).Adds (scanned g block) (LinksOf g block)) :
    (empty g.labelCount).Adds ((blocks.map (scanned g)).foldl merge (empty g.labelCount))
      fun a b edgeType => ∃ block ∈ blocks, LinksOf g block a b edgeType := by
  have hcount : ∀ part ∈ blocks.map (scanned g),
      part.labelCount = (empty g.labelCount).labelCount := by
    intro part hpart
    obtain ⟨block, hblock, rfl⟩ := List.mem_map.mp hpart
    exact (h block hblock).labelCount
  have hlinks : ∀ block ∈ blocks, ∀ a b edgeType,
      (scanned g block).contains a b edgeType = true ↔ LinksOf g block a b edgeType := by
    intro block hblock a b edgeType
    rw [(h block hblock).contains_iff, or_iff_right (not_contains_empty _ _ _ _)]
  refine (adds_foldl_merge hcount).congr fun a b edgeType => ?_
  constructor
  · intro hlink
    obtain ⟨part, hpart, hlink⟩ := hlink
    obtain ⟨block, hblock, rfl⟩ := List.mem_map.mp hpart
    exact ⟨block, hblock, (hlinks block hblock a b edgeType).mp hlink⟩
  · intro hlink
    obtain ⟨block, hblock, hlink⟩ := hlink
    exact ⟨_, List.mem_map_of_mem hblock, (hlinks block hblock a b edgeType).mpr hlink⟩

/-- If there is room for the list of blocks, an extraction unites what a run over them finds. -/
theorem extract_eq_map {parts : Nat} (hparts : parts ≠ 0)
    (hblocks : reserve parts Block.bytes = .ok ()) (reports : Reporting) :
    extract g parts reports =
      (liftM (runTasks (fun _ => scan g) (Block.partition g.nodeCount parts) reports) :
        Except Failure (List Schema)).map (List.foldl merge (empty g.labelCount)) := by
  rw [extract, if_neg hparts, hblocks]
  cases runTasks (fun _ => scan g) (Block.partition g.nodeCount parts) reports <;> rfl

/-- In a readable network with labels in the vocabulary the extraction succeeds, and the
links are those of the edges, however many blocks there are. -/
theorem extract_eq_ok (hread : g.Readable .outgoing) (hbound : g.LabelsBounded)
    (hroom : reserve g.labelCount rowBytes = .ok ()) {parts : Nat} (hparts : parts ≠ 0)
    (hblocks : reserve parts Block.bytes = .ok ()) :
    ∃ s, (∀ reports, extract g parts reports = .ok s) ∧ s.labelCount = g.labelCount ∧
      ∀ a b edgeType, s.contains a b edgeType = true ↔
        ∃ node, g.contains node = true ∧ g.LinksFrom node a b edgeType := by
  have hscan : ∀ block ∈ Block.partition g.nodeCount parts,
      scan g block = .ok (scanned g block) ∧
        (empty g.labelCount).Adds (scanned g block) (LinksOf g block) := fun _ hblock =>
    scan_eq_ok hread hbound hroom (contains_of_mem_partition hparts hblock)
  have hrun : ∀ reports, runTasks (fun _ => scan g) (Block.partition g.nodeCount parts) reports =
      .ok ((Block.partition g.nodeCount parts).map (scanned g)) := fun _ =>
    runTasks_eq_ok fun block hblock => (hscan block hblock).1
  have hadds := adds_foldl_scanned fun block hblock => (hscan block hblock).2
  refine ⟨_, fun reports => ?_, hadds.labelCount.trans (labelCount_empty _), fun a b edgeType => ?_⟩
  · rw [extract_eq_map hparts hblocks, hrun]
    rfl
  · rw [hadds.contains_iff, or_iff_right (not_contains_empty _ a b edgeType),
      exists_linksOf_partition hparts]

end Schema

/-! ## Built graphs -/

theorem Schema.reserve_rows {count : Nat} (h : count < UInt32.size) :
    reserve count Schema.rowBytes = .ok () := by
  have hsize : UInt32.size = 4294967296 := rfl
  have hbytes : addressableBytes = 9223372036854775807 := rfl
  rw [reserve, if_pos]
  rw [Schema.rowBytes, hbytes]
  omega

/-- Whether all labels that a call gives are told by ids below a count. -/
def BuilderCall.labelsBelow (count : Nat) : BuilderCall → Bool
  | .addNode _ _ => false
  | .addNodeWithLabels _ labels => labels.all fun label => label.index < count
  | .addEdge _ _ _ | .addEdgeWithType _ _ _ => true

namespace GraphBuilder

variable {b : GraphBuilder} {additions : List Addition}

theorem edgeTypeOf_build {src dst : NodeId} {edgeType : EdgeTypeId}
    (h : b.build.edgeType src dst = .ok edgeType) :
    b.build.network.edgeTypeOf src dst = edgeType := by
  have hread : b.build.network.edgeType src dst = .ok edgeType := by
    show (liftM (b.build.edgeType src dst) : Except Failure EdgeTypeId) = _
    rw [h]
    rfl
  rw [Network.edgeTypeOf, hread]

/-- The edges that leave a node are its outgoing neighbors with their types. -/
theorem Records.mem_edges_iff (h : b.Records additions) (hends : b.Consistent)
    {node next : NodeId} {edgeType : EdgeTypeId} :
    (⟨node, next⟩, edgeType) ∈ b.build.edges ↔
      next ∈ b.build.neighbors node .outgoing ∧
        edgeType = b.build.network.edgeTypeOf node next := by
  have hedges := (h.freezes hends).mem_edges ⟨node, next⟩
  rw [hedges, mem_outgoing hends, h.mem_arcs, List.mem_map]
  constructor
  · intro hmem
    exact ⟨⟨_, hmem, rfl⟩, (edgeTypeOf_build (h.edgeType_eq_ok.mpr (Or.inl hmem))).symm⟩
  · intro hmem
    obtain ⟨⟨⟨arc, found⟩, hmem, rfl⟩, rfl⟩ := hmem
    rwa [edgeTypeOf_build (h.edgeType_eq_ok.mpr (Or.inl hmem))]

theorem labelsBounded_build (h : b.Records additions) : b.build.network.LabelsBounded :=
  fun _ _ hlabel => h.label_lt hlabel

/-- The links of a built graph are those of its edges. -/
theorem Records.exists_linksFrom_iff (h : b.Records additions) (hends : b.Consistent)
    {a c : LabelId} {edgeType : EdgeTypeId} :
    (∃ node, b.build.network.contains node = true ∧
        b.build.network.LinksFrom node a c edgeType) ↔
      ∃ src dst, (⟨src, dst⟩, edgeType) ∈ b.build.edges ∧
        (a ∈ b.build.labels src ∧ c ∈ b.build.labels dst ∨
          c ∈ b.build.labels src ∧ a ∈ b.build.labels dst) := by
  constructor
  · intro hlink
    obtain ⟨node, -, next, hnext, htype, hlabels⟩ := hlink
    exact ⟨node, next, (h.mem_edges_iff hends).mpr ⟨hnext, htype⟩, hlabels⟩
  · intro hlink
    obtain ⟨src, dst, hedge, hlabels⟩ := hlink
    obtain ⟨hnext, htype⟩ := (h.mem_edges_iff hends).mp hedge
    have hsrc := (hends.ends _ ((mem_outgoing hends).mp hnext)).1
    exact ⟨src, contains_build_iff.mpr hsrc, dst, hnext, htype, hlabels⟩

/-! ## Labels given by their ids

A caller that gives all labels by their ids knows how many there are. -/

theorem labelCount_addArc (b : GraphBuilder) (arc : Arc) (edgeType : EdgeTypeId) :
    (b.addArc arc edgeType).2.build.labelCount = b.build.labelCount := by
  unfold addArc
  split <;> rfl

theorem labelCount_after_le {count : Nat} (h : b.build.labelCount ≤ count) {call : BuilderCall}
    (hcall : call.labelsBelow count = true) : (b.after call).build.labelCount ≤ count := by
  cases call with
  | addNode external names => cases hcall
  | addNodeWithLabels external labels =>
      show (b.addNodeWithLabels external labels).2.build.labelCount ≤ count
      unfold addNodeWithLabels
      dsimp only
      split
      · exact h
      · next largest hlargest =>
          split
          · exact h
          · have hmem : largest ∈ labels :=
              Rows.mem_ascending.mp (List.mem_of_getLast? hlargest)
            have hlt : largest.index < count :=
              of_decide_eq_true (List.all_eq_true.mp hcall largest hmem)
            have hold : max b.labelBound b.labelNames.size ≤ count := h
            show max (max b.labelBound (largest.index + 1)) b.labelNames.size ≤ count
            omega
  | addEdge src dst name =>
      show (b.addEdge src dst name).2.build.labelCount ≤ count
      rw [addEdge]
      split
      · exact h
      · rw [labelCount_addArc]
        exact h
  | addEdgeWithType src dst edgeType =>
      show (b.addEdgeWithType src dst edgeType).2.build.labelCount ≤ count
      rw [addEdgeWithType]
      split
      · exact h
      · rw [labelCount_addArc]
        exact h

theorem labelCount_ofCalls_le {count : Nat} {calls : List BuilderCall}
    (h : ∀ call ∈ calls, call.labelsBelow count = true) :
    (ofCalls calls).build.labelCount ≤ count := by
  have hrun : ∀ b : GraphBuilder, b.build.labelCount ≤ count →
      (calls.foldl after b).build.labelCount ≤ count := by
    induction calls with
    | nil => exact fun b hb => hb
    | cons call rest ih =>
        intro b hb
        exact ih (fun other hother => h other (List.mem_cons_of_mem _ hother)) _
          (labelCount_after_le hb (h call List.mem_cons_self))
  exact hrun {} (Nat.zero_le _)

theorem labelCount_loop_lt : (ofCalls loop).build.labelCount < UInt32.size := by
  have hle : (ofCalls loop).build.labelCount ≤ 3 := labelCount_ofCalls_le (by decide)
  exact lt_of_le_of_lt hle (by decide)

/-- The schema of a built graph links two labels by an edge type exactly when an edge of this
type joins nodes that carry them, whichever way it points, and it is the same schema for
every number of blocks, whatever would be reported. -/
theorem extract_of_built (calls : List BuilderCall)
    (hlabels : (ofCalls calls).build.labelCount < UInt32.size) :
    ∃ s : Schema, s.labelCount = (ofCalls calls).build.labelCount ∧
      (∀ a b edgeType, s.contains a b edgeType = true ↔
        ∃ src dst, (⟨src, dst⟩, edgeType) ∈ (ofCalls calls).build.edges ∧
          (a ∈ (ofCalls calls).build.labels src ∧ b ∈ (ofCalls calls).build.labels dst ∨
            b ∈ (ofCalls calls).build.labels src ∧ a ∈ (ofCalls calls).build.labels dst)) ∧
      ∀ parts reports, 1 ≤ parts → reserve parts Block.bytes = .ok () →
        Schema.extract (ofCalls calls).build.network parts reports = .ok s := by
  obtain ⟨additions, -, h⟩ := records_ofCalls calls
  have hends := consistent_ofCalls calls
  have hextract := fun parts (hparts : 1 ≤ parts) => Schema.extract_eq_ok
    (readable_build (ofCalls calls) .outgoing) (labelsBounded_build h)
    (Schema.reserve_rows hlabels) (Nat.one_le_iff_ne_zero.mp hparts)
  obtain ⟨s, -, hcount, hlinks⟩ := hextract 1 (Nat.le_refl 1) rfl
  refine ⟨s, hcount, fun a b edgeType =>
    (hlinks a b edgeType).trans (h.exists_linksFrom_iff hends),
    fun parts reports hparts hblocks => ?_⟩
  obtain ⟨other, hother, hcount', hlinks'⟩ := hextract parts hparts hblocks
  rw [hother reports]
  refine congrArg Except.ok (Schema.ext_contains (hcount'.trans hcount.symm) ?_ fun a b edgeType =>
    (hlinks' a b edgeType).trans (hlinks a b edgeType).symm)
  rw [hcount']
  exact hlabels.le

/-- The edges of a graph of two nodes that are joined both ways, and a loop. -/
theorem extract_of_built_loop :
    ∃ s : Schema, s.labelCount = (ofCalls loop).build.labelCount ∧
      (∀ a b edgeType, s.contains a b edgeType = true ↔
        ∃ src dst, (⟨src, dst⟩, edgeType) ∈ (ofCalls loop).build.edges ∧
          (a ∈ (ofCalls loop).build.labels src ∧ b ∈ (ofCalls loop).build.labels dst ∨
            b ∈ (ofCalls loop).build.labels src ∧ a ∈ (ofCalls loop).build.labels dst)) ∧
      ∀ parts reports, 1 ≤ parts → reserve parts Block.bytes = .ok () →
        Schema.extract (ofCalls loop).build.network parts reports = .ok s :=
  extract_of_built loop labelCount_loop_lt

end GraphBuilder

end Hetnet
