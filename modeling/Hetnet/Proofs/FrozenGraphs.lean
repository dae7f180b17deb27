import Mathlib
import Hetnet.Proofs.Additions
import Hetnet.Proofs.Requests

/-!
# A built graph is exactly what was added

A graph keeps the same facts several times: three adjacencies, a map of edge types, a
table of labels and two tables of external ids. `Graph.Freezes g additions` says that all
of them tell the story of the additions, in full and in order, and that nothing else is
in them. A builder that records additions builds a graph that freezes them, whatever
was refused on the way.

The search relies on more than membership: rows are strictly increasing, every adjacency
has a type, and every label and type is below the count that the graph gives.
-/

namespace Hetnet

/-- Ids in strictly increasing order. -/
def Increasing {kind : Kind} (ids : List (TypedId kind)) : Prop :=
  ids.Pairwise fun a b => a.index < b.index

theorem Increasing.nodup {kind : Kind} {ids : List (TypedId kind)} (h : Increasing ids) :
    ids.Nodup :=
  h.imp fun hlt heq => (heq ▸ hlt).false

/-- A graph that holds exactly the given additions. -/
structure Graph.Freezes (g : Graph) (additions : List Addition) : Prop where
  nodeCount : g.nodeCount = (Addition.nodes additions).length
  /-- The nodes are numbered in the order in which they were added, and each carries
  its labels. -/
  nodes : ∀ i external labels, (Addition.nodes additions)[i]? = some (external, labels) →
    ∃ node : NodeId, node.index = i ∧ g.externalId node = external ∧
      Increasing (g.labels node) ∧ g.labels node ≠ [] ∧
      (∀ label, label ∈ g.labels node ↔ label ∈ labels) ∧
      ∀ label ∈ g.labels node, label.index < g.labelCount
  /-- The two ways between nodes and external ids lead back to each other. -/
  node_eq_ok : ∀ external node,
    g.node external = .ok node ↔ node.index < g.nodeCount ∧ g.externalId node = external
  node_isOk : ∀ external, (∃ node, g.node external = .ok node) ↔
    external ∈ (Addition.nodes additions).map Prod.fst
  outgoing : ∀ node, Increasing (g.neighbors node .outgoing) ∧
    ∀ next, next ∈ g.neighbors node .outgoing ↔
      ⟨node, next⟩ ∈ (Addition.edges additions).map Prod.fst
  incoming : ∀ node, Increasing (g.neighbors node .incoming) ∧
    ∀ next, next ∈ g.neighbors node .incoming ↔
      ⟨next, node⟩ ∈ (Addition.edges additions).map Prod.fst
  both : ∀ node, Increasing (g.neighbors node .both) ∧
    ∀ next, next ∈ g.neighbors node .both ↔
      ⟨node, next⟩ ∈ (Addition.edges additions).map Prod.fst ∨
        ⟨next, node⟩ ∈ (Addition.edges additions).map Prod.fst
  /-- Two nodes have the type of every edge that was added between them, either way. -/
  edgeType_eq_ok : ∀ src dst edgeType, g.edgeType src dst = .ok edgeType ↔
    (⟨src, dst⟩, edgeType) ∈ Addition.edges additions ∨
      (⟨dst, src⟩, edgeType) ∈ Addition.edges additions
  edgeType_comm : ∀ src dst edgeType,
    g.edgeType src dst = .ok edgeType ↔ g.edgeType dst src = .ok edgeType
  edgeType_lt : ∀ src dst edgeType,
    g.edgeType src dst = .ok edgeType → edgeType.index < g.edgeTypeCount
  /-- The edges are listed by source and destination, each once. -/
  edges : (g.edges.map Prod.fst).Pairwise fun a b =>
    a.src.index < b.src.index ∨ a.src = b.src ∧ a.dst.index < b.dst.index
  mem_edges : ∀ arc edgeType,
    (arc, edgeType) ∈ g.edges ↔ (arc, edgeType) ∈ Addition.edges additions
  edgeCount : g.edgeCount = ((Addition.edges additions).map Prod.fst).dedup.length
  nodesWithLabel : ∀ label, Increasing (g.nodesWithLabel label) ∧
    ∀ node, node ∈ g.nodesWithLabel label ↔ node.index < g.nodeCount ∧ label ∈ g.labels node

theorem Graph.Freezes.mem_arcs {g : Graph} {additions : List Addition} (h : g.Freezes additions)
    {arc : Arc} :
    arc ∈ (Addition.edges additions).map Prod.fst ↔ ∃ edgeType, (arc, edgeType) ∈ g.edges := by
  simp only [h.mem_edges, List.mem_map, Prod.exists, exists_and_right, exists_eq_right]

/-! ## The nodes of a range -/

namespace Network

theorem mem_nodesFrom_zero {stop : Nat} {node : NodeId} :
    node ∈ nodesFrom 0 stop ↔ node.index < stop := by
  constructor
  · intro h
    obtain ⟨i, hi, rfl⟩ := List.mem_map.mp h
    have hlt : i < stop := by simpa using List.mem_range'_1.mp hi
    exact lt_of_le_of_lt (TypedId.index_ofIndex_le i) hlt
  · intro h
    have hmem : node.index ∈ List.range' 0 (stop - 0) := List.mem_range'_1.mpr (by omega)
    exact List.mem_map.mpr ⟨node.index, hmem, TypedId.ofIndex_index node⟩

theorem contains_iff_mem_nodesFrom {g : Network} {node : NodeId} :
    g.contains node = true ↔ node ∈ nodesFrom 0 g.nodeCount := by
  rw [mem_nodesFrom_zero, contains, decide_eq_true_iff]

theorem increasing_nodesFrom {first stop : Nat} (h : stop ≤ UInt32.size) :
    Increasing (nodesFrom first stop) := by
  refine List.pairwise_map.mpr ?_
  refine List.Pairwise.imp_of_mem (fun {i j} hi hj hlt => ?_) List.pairwise_lt_range'
  have hi := List.mem_range'_1.mp hi
  have hj := List.mem_range'_1.mp hj
  rw [TypedId.index_ofIndex (by omega), TypedId.index_ofIndex (by omega)]
  exact hlt

end Network

/-! ## Look-ups that succeed -/

namespace Graph

theorem node_eq_ok_iff {g : Graph} {external : ExternalId} {node : NodeId} :
    g.node external = .ok node ↔ g.nodes.node? external = some node := by
  rw [Graph.node]
  cases g.nodes.node? external with
  | none => simp
  | some found => simp

theorem edgeType_eq_ok_iff {g : Graph} {src dst : NodeId} {edgeType : EdgeTypeId} :
    g.edgeType src dst = .ok edgeType ↔
      (g.edgeTypes[Arc.mk src dst]?).or g.edgeTypes[Arc.mk dst src]? = some edgeType := by
  rw [Graph.edgeType]
  cases (g.edgeTypes[Arc.mk src dst]?).or g.edgeTypes[Arc.mk dst src]? with
  | none => simp
  | some found => simp

/-! ## The rows of the edges -/

theorem mem_edges {g : Graph} {arc : Arc} {edgeType : EdgeTypeId} :
    (arc, edgeType) ∈ g.edges ↔ arc.src.index < g.nodeCount ∧
      arc.dst ∈ g.neighbors arc.src .outgoing ∧ g.edgeTypes[arc]? = some edgeType := by
  simp only [edges, List.mem_flatMap, List.mem_filterMap, Option.map_eq_some_iff,
    Network.mem_nodesFrom_zero]
  constructor
  · intro hmem
    obtain ⟨src, hsrc, dst, hdst, found, hfound, heq⟩ := hmem
    obtain ⟨rfl, rfl⟩ := Prod.mk.inj heq
    exact ⟨hsrc, hdst, hfound⟩
  · intro hmem
    obtain ⟨hsrc, hdst, hfound⟩ := hmem
    exact ⟨arc.src, hsrc, arc.dst, hdst, edgeType, hfound, rfl⟩

/-- Rows that increase, read in the order of the nodes, list the arcs in order. -/
theorem pairwise_edges {g : Graph} (hcount : g.nodeCount ≤ UInt32.size)
    (hrows : ∀ node, Increasing (g.neighbors node .outgoing)) :
    g.edges.Pairwise fun a b => compare a.1 b.1 = .lt := by
  simp only [Arc.compare_eq_lt]
  refine List.pairwise_flatMap.mpr ⟨fun src _ => ?_, ?_⟩
  · refine List.pairwise_filterMap.mpr ((hrows src).imp fun hlt => ?_)
    intro a ha b hb
    obtain ⟨_, -, rfl⟩ := Option.map_eq_some_iff.mp ha
    obtain ⟨_, -, rfl⟩ := Option.map_eq_some_iff.mp hb
    exact Or.inr ⟨rfl, hlt⟩
  · refine (Network.increasing_nodesFrom hcount).imp fun hlt => ?_
    intro a ha b hb
    obtain ⟨_, -, ha⟩ := List.mem_filterMap.mp ha
    obtain ⟨_, -, hb⟩ := List.mem_filterMap.mp hb
    obtain ⟨_, -, rfl⟩ := Option.map_eq_some_iff.mp ha
    obtain ⟨_, -, rfl⟩ := Option.map_eq_some_iff.mp hb
    exact Or.inl hlt

end Graph

/-! ## What a builder that records additions builds -/

namespace GraphBuilder

variable {b : GraphBuilder} {additions : List Addition}

theorem increasing_ofArcs (count : Nat) (arcs : List Arc) (node : NodeId) :
    Increasing ((Adjacency.ofArcs count arcs).neighbors node) :=
  (Rows.pairwise_row_ofPairs _ _ _).imp TypedId.compare_eq_lt.mp

theorem labels_build (b : GraphBuilder) (node : NodeId) :
    b.build.labels node = (b.nodeLabels.toList[node.index]?).getD [] :=
  Rows.row_ofRows _ _

theorem Records.mem_arcs (h : b.Records additions) {arc : Arc} :
    arc ∈ b.arcs ↔ arc ∈ (Addition.edges additions).map Prod.fst := by
  rw [GraphBuilder.mem_arcs, Std.ExtTreeMap.mem_iff_isSome_getElem?, Option.isSome_iff_exists]
  simp only [h.edges.mem_iff, List.mem_map, Prod.exists, exists_and_right, exists_eq_right]

theorem Records.nodeCount (h : b.Records additions) :
    b.nodeCount = (Addition.nodes additions).length := by
  rw [GraphBuilder.nodeCount, ← Array.length_toList, h.nodes.labels, List.length_map]

theorem Records.size_nodes (h : b.Records additions) : b.nodes.size = b.nodeCount := by
  rw [h.nodeCount, ← List.length_map Prod.fst, ← h.nodes.externals, Array.length_toList]
  rfl

theorem Records.external? (h : b.Records additions) (node : NodeId) :
    b.nodes.external? node = ((Addition.nodes additions)[node.index]?).map Prod.fst := by
  rw [NodeTable.external?, Numbering.key?, ← Array.getElem?_toList, h.nodes.externals,
    List.getElem?_map]

theorem Records.externalId (h : b.Records additions) {node : NodeId} {external : ExternalId}
    {labels : List LabelId}
    (hnode : (Addition.nodes additions)[node.index]? = some (external, labels)) :
    b.build.externalId node = external := by
  show (b.nodes.external? node).getD _ = _
  rw [h.external?, hnode]
  rfl

theorem Records.labels (h : b.Records additions) {node : NodeId} {external : ExternalId}
    {labels : List LabelId}
    (hnode : (Addition.nodes additions)[node.index]? = some (external, labels)) :
    b.build.labels node = Rows.ascending labels := by
  rw [labels_build, h.nodes.labels, List.getElem?_map, hnode]
  rfl

theorem Records.increasing_labels (h : b.Records additions) (node : NodeId) :
    Increasing (b.build.labels node) := by
  rw [labels_build, h.nodes.labels, List.getElem?_map]
  cases (Addition.nodes additions)[node.index]? with
  | none => exact List.Pairwise.nil
  | some entry => exact (Rows.pairwise_ascending entry.2).imp TypedId.compare_eq_lt.mp

theorem Records.label_lt (h : b.Records additions) {node : NodeId} {label : LabelId}
    (hlabel : label ∈ b.build.labels node) : label.index < b.build.labelCount := by
  rw [labels_build, h.nodes.labels, List.getElem?_map] at hlabel
  cases hentry : (Addition.nodes additions)[node.index]? with
  | none =>
      rw [hentry] at hlabel
      cases hlabel
  | some entry =>
      rw [hentry] at hlabel
      have hlt := h.nodes.bound entry (List.mem_of_getElem? hentry) label
        (Rows.mem_ascending.mp hlabel)
      exact lt_of_lt_of_le hlt (Nat.le_max_left _ _)

theorem Records.nodeCount_le (h : b.Records additions) : b.build.nodeCount ≤ UInt32.size := by
  rw [nodeCount_build, ← h.size_nodes]
  exact h.nodes.room

theorem Records.index_ofIndex (h : b.Records additions) {i : Nat}
    (hi : i < (Addition.nodes additions).length) : (TypedId.ofIndex i : NodeId).index = i := by
  have hroom := h.nodeCount_le
  rw [nodeCount_build, h.nodeCount] at hroom
  exact TypedId.index_ofIndex (lt_of_lt_of_le hi hroom)

theorem Records.node_eq_ok (h : b.Records additions) {external : ExternalId} {node : NodeId} :
    b.build.node external = .ok node ↔
      ((Addition.nodes additions)[node.index]?).map Prod.fst = some external := by
  rw [← h.external?, ← NodeTable.node?_eq_some_iff h.nodes.room]
  exact Graph.node_eq_ok_iff

theorem Records.edgeType_eq_ok (h : b.Records additions) {src dst : NodeId}
    {edgeType : EdgeTypeId} : b.build.edgeType src dst = .ok edgeType ↔
      (⟨src, dst⟩, edgeType) ∈ Addition.edges additions ∨
        (⟨dst, src⟩, edgeType) ∈ Addition.edges additions := by
  rw [← h.edges.mem_iff, ← h.edges.mem_iff]
  refine Graph.edgeType_eq_ok_iff.trans ?_
  show (b.edgeTypes[Arc.mk src dst]?).or b.edgeTypes[Arc.mk dst src]? = some edgeType ↔ _
  cases hforth : b.edgeTypes[Arc.mk src dst]? with
  | none => simp
  | some found =>
      -- The reverse arc may have a type as well, but it is the same one.
      rw [Option.some_or, or_iff_left_of_imp]
      intro hback
      rw [h.edges.oneType ⟨src, dst⟩ found edgeType hforth hback]

theorem Records.edgeCount (h : b.Records additions) (hends : b.Consistent) :
    b.build.edgeCount = ((Addition.edges additions).map Prod.fst).dedup.length := by
  -- Every arc names a row, and different arcs are different pairs.
  have hfilter : ((b.arcs.map fun arc => (arc.src.index, arc.dst)).filter
      fun pair => pair.1 < b.nodeCount) = b.arcs.map fun arc => (arc.src.index, arc.dst) := by
    rw [List.filter_eq_self]
    intro pair hpair
    obtain ⟨arc, harc, rfl⟩ := List.mem_map.mp hpair
    exact decide_eq_true (hends.ends arc harc).1
  have hnodup : (b.arcs.map fun arc => (arc.src.index, arc.dst)).Nodup := by
    refine List.Nodup.map (fun arc other heq => ?_) Std.ExtTreeMap.nodup_keys
    obtain ⟨hsrc, hdst⟩ := Prod.mk.inj heq
    have harc : (⟨arc.src, arc.dst⟩ : Arc) = ⟨other.src, other.dst⟩ := by
      rw [TypedId.index_inj.mp hsrc, hdst]
    exact harc
  have hperm : b.arcs.Perm ((Addition.edges additions).map Prod.fst).dedup :=
    (List.perm_ext_iff_of_nodup Std.ExtTreeMap.nodup_keys (List.nodup_dedup _)).mpr fun arc => by
      rw [List.mem_dedup]
      exact h.mem_arcs
  show (Rows.ofPairs b.nodeCount _).valueCount = _
  rw [Rows.valueCount_ofPairs, hfilter, hnodup.dedup, List.length_map, hperm.length_eq]

theorem Records.exists_node (h : b.Records additions) {i : Nat} {external : ExternalId}
    {labels : List LabelId} (hentry : (Addition.nodes additions)[i]? = some (external, labels)) :
    ∃ node : NodeId, node.index = i ∧ b.build.externalId node = external ∧
      Increasing (b.build.labels node) ∧ b.build.labels node ≠ [] ∧
      (∀ label, label ∈ b.build.labels node ↔ label ∈ labels) ∧
      ∀ label ∈ b.build.labels node, label.index < b.build.labelCount := by
  have hindex := h.index_ofIndex (List.getElem?_eq_some_iff.mp hentry).1
  have hnode := hentry
  rw [← hindex] at hnode
  refine ⟨_, hindex, h.externalId hnode, h.increasing_labels _, ?_, fun label => ?_,
    fun label => h.label_lt⟩
  · rw [h.labels hnode]
    exact Rows.ascending_ne_nil (h.nodes.labelled _ (List.mem_of_getElem? hnode))
  · rw [h.labels hnode]
    exact Rows.mem_ascending

theorem Records.node_eq_ok_iff_externalId (h : b.Records additions) {external : ExternalId}
    {node : NodeId} : b.build.node external = .ok node ↔
      node.index < b.build.nodeCount ∧ b.build.externalId node = external := by
  rw [h.node_eq_ok, nodeCount_build, h.nodeCount]
  constructor
  · intro hnode
    obtain ⟨entry, hentry, rfl⟩ := Option.map_eq_some_iff.mp hnode
    exact ⟨(List.getElem?_eq_some_iff.mp hentry).1, h.externalId hentry⟩
  · intro hnode
    obtain ⟨hlt, rfl⟩ := hnode
    rw [List.getElem?_eq_getElem hlt, h.externalId (List.getElem?_eq_getElem hlt)]
    rfl

theorem Records.node_isOk (h : b.Records additions) {external : ExternalId} :
    (∃ node, b.build.node external = .ok node) ↔
      external ∈ (Addition.nodes additions).map Prod.fst := by
  constructor
  · intro hnode
    obtain ⟨node, hnode⟩ := hnode
    obtain ⟨entry, hentry, rfl⟩ := Option.map_eq_some_iff.mp (h.node_eq_ok.mp hnode)
    exact List.mem_map.mpr ⟨entry, List.mem_of_getElem? hentry, rfl⟩
  · intro hmem
    obtain ⟨i, hi⟩ := List.mem_iff_getElem?.mp hmem
    rw [List.getElem?_map] at hi
    obtain ⟨entry, hentry, -⟩ := Option.map_eq_some_iff.mp hi
    rw [← h.index_ofIndex (List.getElem?_eq_some_iff.mp hentry).1] at hi
    exact ⟨_, h.node_eq_ok.mpr hi⟩

/-! ### Neighbors

The ends of every arc are nodes, so no arc is lost because its row is missing. -/

theorem mem_outgoing (h : b.Consistent) {node next : NodeId} :
    next ∈ b.build.neighbors node .outgoing ↔ ⟨node, next⟩ ∈ b.arcs :=
  mem_neighbors_ofArcs.trans (and_iff_right_of_imp fun harc => (h.ends _ harc).1)

theorem mem_incoming (h : b.Consistent) {node next : NodeId} :
    next ∈ b.build.neighbors node .incoming ↔ ⟨next, node⟩ ∈ b.arcs := by
  rw [← mem_arcs_reverse]
  refine mem_neighbors_ofArcs.trans (and_iff_right_of_imp fun harc => ?_)
  exact (h.ends _ (mem_arcs_reverse.mp harc)).2

theorem mem_both (h : b.Consistent) {node next : NodeId} :
    next ∈ b.build.neighbors node .both ↔ ⟨node, next⟩ ∈ b.arcs ∨ ⟨next, node⟩ ∈ b.arcs := by
  have hreverse : ⟨next, node⟩ ∈ b.arcs ↔ Arc.mk node next ∈ b.arcs.map Arc.reverse :=
    mem_arcs_reverse.symm
  rw [hreverse, ← List.mem_append]
  refine mem_neighbors_ofArcs.trans (and_iff_right_of_imp fun harc => ?_)
  rcases List.mem_append.mp harc with hforth | hback
  · exact (h.ends _ hforth).1
  · exact (h.ends _ (mem_arcs_reverse.mp hback)).2

/-! ### Edges

No arc is lost in the rows and every arc of a row has a type, so reading the rows lists the
edges of the builder. -/

/-- The rows of a built graph, read in order, are the ordered edges of the builder. -/
theorem Records.edges_build (h : b.Records additions) (hends : b.Consistent) :
    b.build.edges = b.edgeTypes.toList := by
  have hrows := Graph.pairwise_edges h.nodeCount_le fun node => increasing_ofArcs _ _ node
  refine ext_of_increasing_on Prod.fst hrows Std.ExtTreeMap.ordered_keys_toList fun edge => ?_
  rw [Std.ExtTreeMap.mem_toList_iff_getElem?_eq_some, Graph.mem_edges]
  refine ⟨fun hmem => hmem.2.2, fun hfound => ?_⟩
  have harc : edge.1 ∈ b.arcs := by
    rw [GraphBuilder.mem_arcs, Std.ExtTreeMap.mem_iff_isSome_getElem?, hfound]
    rfl
  have hsrc : edge.1.src.index < b.build.nodeCount := by
    rw [nodeCount_build]
    exact (hends.ends _ harc).1
  exact ⟨hsrc, (mem_outgoing hends).mpr harc, hfound⟩

/-! ### The whole graph -/

/-- A builder that records additions builds a graph that freezes them. -/
theorem Records.freezes (h : b.Records additions) (hends : b.Consistent) :
    b.build.Freezes additions where
  nodeCount := (nodeCount_build b).trans h.nodeCount
  nodes := fun _ _ _ => h.exists_node
  node_eq_ok := fun _ _ => h.node_eq_ok_iff_externalId
  node_isOk := fun _ => h.node_isOk
  outgoing := fun node =>
    ⟨increasing_ofArcs _ _ node, fun _ => (mem_outgoing hends).trans h.mem_arcs⟩
  incoming := fun node =>
    ⟨increasing_ofArcs _ _ node, fun _ => (mem_incoming hends).trans h.mem_arcs⟩
  both := fun node => ⟨increasing_ofArcs _ _ node, fun _ =>
    (mem_both hends).trans (or_congr h.mem_arcs h.mem_arcs)⟩
  edgeType_eq_ok := fun _ _ _ => h.edgeType_eq_ok
  edgeType_comm := fun _ _ _ => by rw [h.edgeType_eq_ok, h.edgeType_eq_ok, or_comm]
  edgeType_lt := by
    intro src dst edgeType htype
    have hlt : edgeType.index < b.edgeTypeBound := by
      rcases h.edgeType_eq_ok.mp htype with hforth | hback
      · exact h.edges.bound _ hforth
      · exact h.edges.bound _ hback
    exact lt_of_lt_of_le hlt (Nat.le_max_left _ _)
  edges := by
    rw [h.edges_build hends]
    exact List.pairwise_map.mpr (Std.ExtTreeMap.ordered_keys_toList.imp Arc.compare_eq_lt.mp)
  mem_edges := fun arc edgeType => by
    rw [h.edges_build hends, Std.ExtTreeMap.mem_toList_iff_getElem?_eq_some]
    exact h.edges.mem_iff arc edgeType
  edgeCount := h.edgeCount hends
  nodesWithLabel := by
    intro label
    refine ⟨(Network.increasing_nodesFrom h.nodeCount_le).filter _, fun node => ?_⟩
    rw [Graph.nodesWithLabel, List.mem_filter, Network.mem_nodesFrom_zero, List.contains_iff_mem]

/-- Whatever a run of calls is answered with, every accepted call has a meaning in the tables
of the graph built at its end, and the graph is exactly what the accepted calls add. -/
theorem build_freezes (calls : List BuilderCall) :
    ∃ additions, (accepted calls).mapM (ofCalls calls).build.addition? = some additions ∧
      (ofCalls calls).build.Freezes additions := by
  obtain ⟨additions, hadditions, hrecords⟩ := records_ofCalls calls
  exact ⟨additions, hadditions, hrecords.freezes (consistent_ofCalls calls)⟩

end GraphBuilder

end Hetnet
