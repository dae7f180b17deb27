import Mathlib
import Hetnet.Proofs.Additions
import Hetnet.Proofs.FrozenGraphs

/-!
# Which calls are accepted

A call is answered with success when nothing that a builder holds speaks against it. For a
node that is its external id, and for an edge the type of another edge between the same
two nodes; labels and names by themselves are never refused. The conditions are told here
in terms of what the builder records, so that a run of calls can be judged from the calls
alone.
-/

namespace Hetnet

namespace GraphBuilder

variable {b : GraphBuilder} {additions : List Addition}

theorem isOk_addNodeWithLabels_iff {external : ExternalId} {labels : List LabelId} :
    (b.addNodeWithLabels external labels).1.isOk = true ↔
      labels ≠ [] ∧ b.nodes.node? external = none ∧ b.nodes.size < UInt32.size := by
  rw [addNodeWithLabels]
  cases hlargest : (Rows.ascending labels).getLast? with
  | none =>
      refine iff_of_false (fun hok => by cases hok) fun hconditions => ?_
      exact Rows.ascending_ne_nil hconditions.1 (List.getLast?_eq_none_iff.mp hlargest)
  | some largest =>
      have hlabels : labels ≠ [] := by
        rintro rfl
        cases hlargest
      dsimp only
      rw [and_iff_right hlabels]
      cases hinsert : b.nodes.insert external with
      | ok entry =>
          obtain ⟨hnode, hroom, -⟩ := NodeTable.insert_eq_ok hinsert
          exact iff_of_true rfl ⟨hnode, hroom⟩
      | error error =>
          refine iff_of_false (fun hok => by cases hok) fun hconditions => ?_
          obtain ⟨hnode, hroom⟩ := hconditions
          rw [NodeTable.insert_of_eq_none (Option.map_eq_none_iff.mp hnode) hroom] at hinsert
          cases hinsert

theorem internAll_ne_nil {kind : Kind} {v : Vocabulary kind} {names : List String} :
    (v.internAll names).1 ≠ [] ↔ names ≠ [] := by
  cases names with
  | nil => exact iff_of_false (fun h => h rfl) fun h => h rfl
  | cons name rest => exact iff_of_true (List.cons_ne_nil _ _) (List.cons_ne_nil _ _)

theorem accepts_addNode_iff {external : ExternalId} {names : List String} :
    b.accepts (.addNode external names) = true ↔
      names ≠ [] ∧ b.nodes.node? external = none ∧ b.nodes.size < UInt32.size := by
  rw [← internAll_ne_nil (v := b.labelNames)]
  exact isOk_addNodeWithLabels_iff (b := { b with labelNames := (b.labelNames.internAll names).2 })

theorem resolve_of_node? {external : ExternalId} {node : NodeId}
    (h : b.nodes.node? external = some node) : b.resolve external = .ok node := by
  rw [resolve, h]

theorem resolveArc_eq_ok_iff {src dst : ExternalId} {arc : Arc} :
    b.resolveArc src dst = .ok arc ↔
      b.nodes.node? src = some arc.src ∧ b.nodes.node? dst = some arc.dst := by
  refine ⟨resolveArc_eq_ok, fun h => ?_⟩
  rw [resolveArc, resolve_of_node? h.1, resolve_of_node? h.2]
  rfl

/-- An arc is added when every edge between its ends, either way, has the same type. -/
theorem isOk_addArc_iff (h : b.Records additions) {arc : Arc} {edgeType : EdgeTypeId} :
    (b.addArc arc edgeType).1.isOk = true ↔
      ∀ old, (arc, old) ∈ Addition.edges additions ∨
        (arc.reverse, old) ∈ Addition.edges additions → old = edgeType := by
  have hexisting : ∀ old, b.existing? arc = some old ↔
      (arc, old) ∈ Addition.edges additions ∨ (arc.reverse, old) ∈ Addition.edges additions := by
    intro old
    rw [existing?, ← h.edges.mem_iff, ← h.edges.mem_iff, Option.or_eq_some_iff]
    constructor
    · rintro (hsame | ⟨-, hreverse⟩)
      · exact Or.inl hsame
      · exact Or.inr hreverse
    · rintro (hsame | hreverse)
      · exact Or.inl hsame
      · cases hsame : b.edgeTypes[arc]? with
        | none => exact Or.inr ⟨rfl, hreverse⟩
        | some other => exact Or.inl (by rw [h.edges.oneType arc other old hsame hreverse])
  simp only [← hexisting]
  rw [addArc]
  split
  · next hagrees =>
      refine iff_of_true rfl fun old hold => ?_
      rw [hold] at hagrees
      simpa using hagrees
  · next hagrees =>
      refine iff_of_false (fun hok => by cases hok) fun hsame => hagrees ?_
      cases hold : b.existing? arc with
      | none => rfl
      | some old => simp [hsame old hold]

theorem accepts_addEdge_iff (h : b.Records additions) {src dst : ExternalId} {name : String} :
    b.accepts (.addEdge src dst name) = true ↔
      ∃ arc : Arc, (b.nodes.node? src = some arc.src ∧ b.nodes.node? dst = some arc.dst) ∧
        ∀ old, (arc, old) ∈ Addition.edges additions ∨
          (arc.reverse, old) ∈ Addition.edges additions →
            old = (b.edgeTypeNames.intern name).1 := by
  simp only [← resolveArc_eq_ok_iff]
  show (b.addEdge src dst name).1.isOk = true ↔ _
  rw [addEdge]
  cases harc : b.resolveArc src dst with
  | error error =>
      refine iff_of_false (fun hok => by cases hok) fun hconditions => ?_
      obtain ⟨_, hresolved, -⟩ := hconditions
      cases hresolved
  | ok arc =>
      dsimp only
      rw [isOk_addArc_iff (h.rename b.labelNames (b.edgeTypeNames.intern name).2)]
      constructor
      · intro hsame
        exact ⟨arc, rfl, hsame⟩
      · intro hconditions
        obtain ⟨other, hother, hsame⟩ := hconditions
        rw [Except.ok.inj hother]
        exact hsame

/-! ## Calls that give ids -/

theorem Records.node?_eq_some_iff (h : b.Records additions) {external : ExternalId}
    {node : NodeId} : b.nodes.node? external = some node ↔
      (Addition.nodes additions)[node.index]?.map Prod.fst = some external :=
  (Graph.node_eq_ok_iff (g := b.build)).symm.trans h.node_eq_ok

theorem Records.addNode (h : b.Records additions) (external : ExternalId)
    (labels : List LabelId) (hlabels : labels ≠ [])
    (hnew : external ∉ (Addition.nodes additions).map Prod.fst)
    (hroom : (Addition.nodes additions).length < UInt32.size) :
    (b.after (.addNodeWithLabels external labels)).Records
      (additions ++ [.node external labels]) := by
  have hnode : b.nodes.node? external = none := by
    rw [Option.eq_none_iff_forall_ne_some]
    exact fun node hfound => hnew (h.node_isOk.mp ⟨node, Graph.node_eq_ok_iff.mpr hfound⟩)
  have hsize : b.nodes.size < UInt32.size := by
    rw [h.size_nodes, h.nodeCount]
    exact hroom
  obtain ⟨addition, hread, hadded⟩ := (steps h (.addNodeWithLabels external labels)).accepted
    (isOk_addNodeWithLabels_iff.mpr ⟨hlabels, hnode, hsize⟩)
  cases hread
  exact hadded

theorem Records.addEdge (h : b.Records additions) (arc : Arc) (edgeType : EdgeTypeId)
    {src dst : ExternalId}
    (hsrc : (Addition.nodes additions)[arc.src.index]?.map Prod.fst = some src)
    (hdst : (Addition.nodes additions)[arc.dst.index]?.map Prod.fst = some dst)
    (hsame : ∀ old, (arc, old) ∈ Addition.edges additions ∨
      (arc.reverse, old) ∈ Addition.edges additions → old = edgeType) :
    (b.after (.addEdgeWithType src dst edgeType)).Records
      (additions ++ [.edge arc edgeType]) := by
  have hends := resolveArc_eq_ok_iff.mpr
    ⟨h.node?_eq_some_iff.mpr hsrc, h.node?_eq_some_iff.mpr hdst⟩
  have hanswer : b.addEdgeWithType src dst edgeType = b.addArc arc edgeType := by
    rw [addEdgeWithType, hends]
  have haccept := (isOk_addArc_iff h).mpr hsame
  rcases adds_addArc h arc edgeType with ⟨error, hrefused⟩ | ⟨_, grown, hadded, -, hrecords⟩
  · rw [hrefused] at haccept
    cases haccept
  · show (b.addEdgeWithType src dst edgeType).2.Records _
    rw [hanswer, hadded]
    exact hrecords

/-- The additions that make the graph of two nodes and a loop. -/
def loopAdditions : List Addition :=
  [.node ⟨7⟩ [⟨1⟩, ⟨0⟩], .node ⟨3⟩ [⟨1⟩, ⟨2⟩], .edge ⟨⟨0⟩, ⟨1⟩⟩ ⟨5⟩, .edge ⟨⟨1⟩, ⟨0⟩⟩ ⟨5⟩,
    .edge ⟨⟨0⟩, ⟨0⟩⟩ ⟨4⟩]

theorem records_loop : (ofCalls loop).Records loopAdditions := by
  have hnodes := (records_empty.addNode ⟨7⟩ [⟨1⟩, ⟨0⟩] (by decide) (by decide) (by decide)).addNode
    ⟨3⟩ [⟨1⟩, ⟨2⟩] (by decide) (by decide) (by decide)
  have hforth := hnodes.addEdge ⟨⟨0⟩, ⟨1⟩⟩ ⟨5⟩ rfl rfl (by simp [Addition.edges])
  have hback := hforth.addEdge ⟨⟨1⟩, ⟨0⟩⟩ ⟨5⟩ rfl rfl (by simp [Addition.edges, Arc.reverse])
  exact hback.addEdge ⟨⟨0⟩, ⟨0⟩⟩ ⟨4⟩ rfl rfl (by simp [Addition.edges, Arc.reverse])

end GraphBuilder

end Hetnet
