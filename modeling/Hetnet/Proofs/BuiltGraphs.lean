import Mathlib
import Hetnet.Graph.Builder
import Hetnet.Proofs.StoredRows
import Hetnet.Proofs.Walks

/-!
# A built graph can be read

Whatever calls a builder has answered, and whichever of them it has refused, its arcs join
nodes that it has added: `GraphBuilder.Consistent` holds of the empty builder, every
call preserves it, and so it holds after every run of calls.

The three adjacencies of the built graph are made from these arcs, so a listed neighbor
is a node of the graph and the step to it has a type, found under the arc itself or
under its reverse.
-/

namespace Hetnet

/-- A call to a builder. -/
inductive BuilderCall
  | addNode (external : ExternalId) (names : List String)
  | addNodeWithLabels (external : ExternalId) (labels : List LabelId)
  | addEdge (src dst : ExternalId) (name : String)
  | addEdgeWithType (src dst : ExternalId) (edgeType : EdgeTypeId)

theorem NodeTable.index_lt_size {t : NodeTable} {external : ExternalId} {node : NodeId}
    (h : t.node? external = some node) : node.index < t.size := by
  obtain ⟨i, hi, rfl⟩ := Option.map_eq_some_iff.mp h
  have hkey : t.externals.keys[i]? = some external := (t.externals.agree external i).mp hi
  obtain ⟨hlt, -⟩ := Array.getElem?_eq_some_iff.mp hkey
  exact lt_of_le_of_lt (Nat.mod_le i UInt32.size) hlt

theorem NodeTable.size_insert {t grown : NodeTable} {external : ExternalId} {node : NodeId}
    (h : t.insert external = .ok (node, grown)) : grown.size = t.size + 1 := by
  unfold insert at h
  split at h
  · cases h
  · split at h
    · cases h
      exact Array.size_push _
    · cases h

namespace GraphBuilder

/-- The builder after a call, be it refused or not. -/
def after (b : GraphBuilder) : BuilderCall → GraphBuilder
  | .addNode external names => (b.addNode external names).2
  | .addNodeWithLabels external labels => (b.addNodeWithLabels external labels).2
  | .addEdge src dst name => (b.addEdge src dst name).2
  | .addEdgeWithType src dst edgeType => (b.addEdgeWithType src dst edgeType).2

/-- The builder after a run of calls from the beginning. -/
def ofCalls (calls : List BuilderCall) : GraphBuilder := calls.foldl after {}

/-- A builder whose nodes all have labels and whose arcs all join its nodes. -/
structure Consistent (b : GraphBuilder) : Prop where
  size : b.nodes.size = b.nodeCount
  ends : ∀ arc ∈ b.arcs, arc.src.index < b.nodeCount ∧ arc.dst.index < b.nodeCount

/-! ## Calls preserve consistency -/

theorem consistent_addNodeWithLabels {b : GraphBuilder} (h : b.Consistent)
    (external : ExternalId) (labels : List LabelId) :
    (b.addNodeWithLabels external labels).2.Consistent := by
  unfold addNodeWithLabels
  dsimp only
  split
  · exact h
  · split
    · exact h
    · next node nodes hinsert =>
        have hcount : (b.nodeLabels.push (Rows.ascending labels)).size = b.nodeCount + 1 :=
          Array.size_push _
        refine ⟨?_, fun arc harc => ?_⟩
        · show nodes.size = (b.nodeLabels.push (Rows.ascending labels)).size
          rw [NodeTable.size_insert hinsert, h.size, hcount]
        · obtain ⟨hsrc, hdst⟩ := h.ends arc harc
          show arc.src.index < (b.nodeLabels.push (Rows.ascending labels)).size ∧
            arc.dst.index < (b.nodeLabels.push (Rows.ascending labels)).size
          rw [hcount]
          omega

theorem mem_arcs {b : GraphBuilder} {arc : Arc} : arc ∈ b.arcs ↔ arc ∈ b.edgeTypes :=
  Std.ExtTreeMap.mem_keys

theorem consistent_addArc {b : GraphBuilder} (h : b.Consistent) {arc : Arc}
    (hsrc : arc.src.index < b.nodeCount) (hdst : arc.dst.index < b.nodeCount)
    (edgeType : EdgeTypeId) : (b.addArc arc edgeType).2.Consistent := by
  rw [addArc]
  split
  · refine ⟨h.size, fun other hother => ?_⟩
    rw [mem_arcs, Std.ExtTreeMap.mem_insert, Std.LawfulEqOrd.compare_eq_iff_eq] at hother
    rcases hother with rfl | hold
    · exact ⟨hsrc, hdst⟩
    · exact h.ends other (mem_arcs.mpr hold)
  · exact h

theorem ends_of_resolveArc {b : GraphBuilder} (h : b.Consistent) {src dst : ExternalId}
    {arc : Arc} (harc : b.resolveArc src dst = .ok arc) :
    arc.src.index < b.nodeCount ∧ arc.dst.index < b.nodeCount := by
  have hnode : ∀ {external : ExternalId} {node : NodeId}, b.resolve external = .ok node →
      node.index < b.nodeCount := by
    intro external node hresolve
    rw [resolve] at hresolve
    split at hresolve
    · next found hfound =>
        cases hresolve
        rw [← h.size]
        exact NodeTable.index_lt_size hfound
    · cases hresolve
  rw [resolveArc] at harc
  cases hsrc : b.resolve src with
  | error cause =>
      rw [hsrc] at harc
      cases harc
  | ok first =>
      cases hdst : b.resolve dst with
      | error cause =>
          rw [hsrc, hdst] at harc
          cases harc
      | ok second =>
          rw [hsrc, hdst] at harc
          cases harc
          exact ⟨hnode hsrc, hnode hdst⟩

theorem consistent_after {b : GraphBuilder} (h : b.Consistent) (call : BuilderCall) :
    (b.after call).Consistent := by
  -- A refused call can leave names behind, which consistency does not mention.
  cases call with
  | addNode external names =>
      have hnamed : Consistent { b with labelNames := (b.labelNames.internAll names).2 } :=
        ⟨h.size, h.ends⟩
      exact consistent_addNodeWithLabels hnamed external _
  | addNodeWithLabels external labels => exact consistent_addNodeWithLabels h external labels
  | addEdge src dst name =>
      show (b.addEdge src dst name).2.Consistent
      rw [addEdge]
      split
      · exact h
      · next arc harc =>
          obtain ⟨hsrc, hdst⟩ := ends_of_resolveArc h harc
          have hnamed : Consistent { b with edgeTypeNames := (b.edgeTypeNames.intern name).2 } :=
            ⟨h.size, h.ends⟩
          exact consistent_addArc hnamed hsrc hdst _
  | addEdgeWithType src dst edgeType =>
      show (b.addEdgeWithType src dst edgeType).2.Consistent
      rw [addEdgeWithType]
      split
      · exact h
      · next arc harc =>
          obtain ⟨hsrc, hdst⟩ := ends_of_resolveArc h harc
          exact consistent_addArc h hsrc hdst _

theorem consistent_ofCalls (calls : List BuilderCall) : (ofCalls calls).Consistent := by
  have hrun : ∀ b : GraphBuilder, b.Consistent → (calls.foldl after b).Consistent := by
    induction calls with
    | nil => exact fun b h => h
    | cons call rest ih => exact fun b h => ih _ (consistent_after h call)
  refine hrun {} ⟨rfl, fun arc harc => ?_⟩
  exact absurd (mem_arcs.mp harc) Std.ExtTreeMap.not_mem_empty

/-! ## The built graph -/

theorem mem_neighbors_ofArcs {count : Nat} {arcs : List Arc} {node next : NodeId} :
    next ∈ (Adjacency.ofArcs count arcs).neighbors node ↔
      node.index < count ∧ ⟨node, next⟩ ∈ arcs := by
  rw [Adjacency.neighbors, Adjacency.ofArcs, Rows.mem_row_ofPairs]
  refine and_congr_right fun _ => ?_
  constructor
  · intro h
    obtain ⟨arc, harc, heq⟩ := List.mem_map.mp h
    obtain ⟨hsrc, rfl⟩ := Prod.mk.inj heq
    rw [← TypedId.index_inj.mp hsrc]
    exact harc
  · intro h
    exact List.mem_map.mpr ⟨_, h, rfl⟩

theorem mem_arcs_reverse {arcs : List Arc} {node next : NodeId} :
    Arc.mk node next ∈ arcs.map Arc.reverse ↔ Arc.mk next node ∈ arcs := by
  constructor
  · intro h
    obtain ⟨arc, harc, heq⟩ := List.mem_map.mp h
    cases heq
    exact harc
  · intro h
    exact List.mem_map.mpr ⟨_, h, rfl⟩

/-- A listed neighbor is at the other end of an arc. -/
theorem arc_of_mem_neighbors {b : GraphBuilder} {node next : NodeId} {direction : Direction}
    (h : next ∈ b.build.neighbors node direction) :
    Arc.mk node next ∈ b.arcs ∨ Arc.mk next node ∈ b.arcs := by
  cases direction with
  | outgoing => exact Or.inl (mem_neighbors_ofArcs.mp h).2
  | incoming => exact Or.inr (mem_arcs_reverse.mp (mem_neighbors_ofArcs.mp h).2)
  | both =>
      rcases List.mem_append.mp (mem_neighbors_ofArcs.mp h).2 with hout | hin
      · exact Or.inl hout
      · exact Or.inr (mem_arcs_reverse.mp hin)

theorem isSome_existing?_iff {b : GraphBuilder} {arc : Arc} :
    (b.existing? arc).isSome = true ↔ arc ∈ b.arcs ∨ arc.reverse ∈ b.arcs := by
  rw [existing?, Option.isSome_or, Bool.or_eq_true, ← Std.ExtTreeMap.mem_iff_isSome_getElem?,
    ← Std.ExtTreeMap.mem_iff_isSome_getElem?, mem_arcs, mem_arcs]

theorem edgeType_of_arc {b : GraphBuilder} {src dst : NodeId}
    (h : Arc.mk src dst ∈ b.arcs ∨ Arc.mk dst src ∈ b.arcs) :
    ∃ type, b.build.edgeType src dst = .ok type := by
  have hsome : (b.existing? ⟨src, dst⟩).isSome = true := isSome_existing?_iff.mpr h
  obtain ⟨type, htype⟩ := Option.isSome_iff_exists.mp hsome
  have hlookup : (b.build.edgeTypes[Arc.mk src dst]?).or b.build.edgeTypes[Arc.mk dst src]? =
      some type := htype
  exact ⟨type, by rw [Graph.edgeType, hlookup]⟩

theorem nodeCount_build (b : GraphBuilder) : b.build.nodeCount = b.nodeCount := by
  show (Rows.ofRows b.nodeLabels.toList).rowCount = _
  rw [Rows.rowCount_ofRows, Array.length_toList, nodeCount]

theorem contains_build_iff {b : GraphBuilder} {node : NodeId} :
    b.build.network.contains node = true ↔ node.index < b.nodeCount := by
  show decide (node.index < b.build.nodeCount) = true ↔ _
  rw [nodeCount_build, decide_eq_true_iff]

/-- The graph of a builder can be read in every direction. -/
theorem readable_build (b : GraphBuilder) (direction : Direction) :
    b.build.network.Readable direction where
  edgeType := by
    intro node next hnext
    obtain ⟨type, htype⟩ := edgeType_of_arc (arc_of_mem_neighbors hnext)
    refine ⟨type, ?_⟩
    show (liftM (b.build.edgeType node next) : Except Failure EdgeTypeId) = _
    rw [htype]
    rfl
  labels_of_contains := fun node _ => ⟨_, rfl⟩
  labels_of_mem := fun node next _ => ⟨_, rfl⟩

/-- Every listed neighbor is a node of the graph. -/
theorem contains_of_mem_neighbors {b : GraphBuilder} (h : b.Consistent) {node next : NodeId}
    {direction : Direction} (hnext : next ∈ b.build.network.neighbors node direction) :
    b.build.network.contains next = true := by
  rw [contains_build_iff]
  rcases arc_of_mem_neighbors hnext with harc | harc
  · exact (h.ends _ harc).2
  · exact (h.ends _ harc).1

/-- Two nodes joined both ways, the first of them with a loop, both with a label of their
own and one in common. -/
def loop : List BuilderCall :=
  [.addNodeWithLabels ⟨7⟩ [⟨1⟩, ⟨0⟩], .addNodeWithLabels ⟨3⟩ [⟨1⟩, ⟨2⟩],
    .addEdgeWithType ⟨7⟩ ⟨3⟩ ⟨5⟩, .addEdgeWithType ⟨3⟩ ⟨7⟩ ⟨5⟩, .addEdgeWithType ⟨7⟩ ⟨7⟩ ⟨4⟩]

end GraphBuilder

end Hetnet
