import Mathlib
import Hetnet.Proofs.Additions

/-!
# What a refused call leaves behind

A builder checks a call before it stores anything, with one exception: the names of a call
are numbered as soon as they are read. So a refused call leaves its names behind and
nothing else (`GraphBuilder.after_of_refused`), and it changes nothing exactly when all of
them were known before. Labels and edge types that are given by their ids have no names, and an
edge to an unknown node is refused before its name is read.

A name that is left behind is not harmless. It counts as a label or an edge type of the
graph, and the names that come after it get other ids.
-/

namespace Hetnet

namespace GraphBuilder

variable {b : GraphBuilder}

/-- Whether all names that a call gives are known; the name of an edge is given when both
of its ends are nodes. -/
def KnowsNames (b : GraphBuilder) : BuilderCall → Prop
  | .addNode _ names => ∀ name ∈ names, b.labelNames.Knows name
  | .addEdge src dst name => (b.resolveArc src dst).isOk = true → b.edgeTypeNames.Knows name
  | .addNodeWithLabels _ _ | .addEdgeWithType _ _ _ => True

/-- The builder in which the names that a call gives have been numbered. -/
def named (b : GraphBuilder) : BuilderCall → GraphBuilder
  | .addNode _ names => { b with labelNames := (b.labelNames.internAll names).2 }
  | .addEdge src dst name =>
      if (b.resolveArc src dst).isOk then
        { b with edgeTypeNames := (b.edgeTypeNames.intern name).2 }
      else b
  | .addNodeWithLabels _ _ | .addEdgeWithType _ _ _ => b

/-! ## Refusals -/

theorem addNodeWithLabels_of_refused {external : ExternalId} {labels : List LabelId}
    (h : (b.addNodeWithLabels external labels).1.isOk = false) :
    (b.addNodeWithLabels external labels).2 = b := by
  unfold addNodeWithLabels at h ⊢
  dsimp only at h ⊢
  split
  · rfl
  · next largest hlargest =>
      rw [hlargest] at h
      dsimp only at h
      split
      · rfl
      · next hinsert =>
          rw [hinsert] at h
          cases h

theorem addArc_of_refused {arc : Arc} {edgeType : EdgeTypeId}
    (h : (b.addArc arc edgeType).1.isOk = false) : (b.addArc arc edgeType).2 = b := by
  unfold addArc at h ⊢
  split
  · next hagrees =>
      rw [if_pos hagrees] at h
      cases h
  · rfl

/-- A refused call numbers its names and does nothing else. -/
theorem after_of_refused {call : BuilderCall} (h : b.accepts call = false) :
    b.after call = b.named call := by
  cases call with
  | addNode external names => exact addNodeWithLabels_of_refused h
  | addNodeWithLabels external labels => exact addNodeWithLabels_of_refused h
  | addEdge src dst name =>
      replace h : (b.addEdge src dst name).1.isOk = false := h
      show (b.addEdge src dst name).2 = b.named (.addEdge src dst name)
      rw [addEdge] at h ⊢
      rw [named]
      cases harc : b.resolveArc src dst with
      | error cause => rfl
      | ok arc =>
          rw [harc] at h
          exact addArc_of_refused h
  | addEdgeWithType src dst edgeType =>
      replace h : (b.addEdgeWithType src dst edgeType).1.isOk = false := h
      show (b.addEdgeWithType src dst edgeType).2 = b
      rw [addEdgeWithType] at h ⊢
      cases harc : b.resolveArc src dst with
      | error cause => rfl
      | ok arc =>
          rw [harc] at h
          exact addArc_of_refused h

/-! ## Names -/

theorem knowsNames_of_names_eq {call : BuilderCall}
    (hlabels : (b.named call).labelNames = b.labelNames)
    (htypes : (b.named call).edgeTypeNames = b.edgeTypeNames) : b.KnowsNames call := by
  cases call with
  | addNode external names => exact Vocabulary.internAll_eq_self_iff.mp hlabels
  | addEdge src dst name =>
      intro harc
      rw [named, if_pos harc] at htypes
      exact Vocabulary.intern_eq_self_iff.mp htypes
  | addNodeWithLabels external labels => trivial
  | addEdgeWithType src dst edgeType => trivial

theorem named_of_knowsNames {call : BuilderCall} (h : b.KnowsNames call) : b.named call = b := by
  cases call with
  | addNode external names => rw [named, Vocabulary.internAll_eq_self_iff.mpr h]
  | addEdge src dst name =>
      rw [named]
      split
      · next harc => rw [Vocabulary.intern_eq_self_iff.mpr (h harc)]
      · rfl
  | addNodeWithLabels external labels => rfl
  | addEdgeWithType src dst edgeType => rfl

/-- A refused call leaves the builder with its names numbered and otherwise as it was. It
can be left out of a run without any effect on the graphs that are built later exactly when it
leaves the builder as it was altogether, and that is when all of its names were known. -/
theorem refused_call_harmless_iff {call : BuilderCall} (h : b.accepts call = false) :
    b.after call = b.named call ∧ (b.after call = b ↔ b.KnowsNames call) ∧
      ((∀ more : List BuilderCall,
        (more.foldl after (b.after call)).build = (more.foldl after b).build) ↔
          b.KnowsNames call) := by
  have hafter := after_of_refused h
  refine ⟨hafter, ?_, ?_⟩
  · rw [hafter]
    exact ⟨fun hsame => knowsNames_of_names_eq (congrArg labelNames hsame)
      (congrArg edgeTypeNames hsame), named_of_knowsNames⟩
  · rw [hafter]
    constructor
    · intro hsame
      -- The graph built at once shows the names.
      have hnow : (b.named call).build = b.build := hsame []
      exact knowsNames_of_names_eq (congrArg Graph.labelNames hnow)
        (congrArg Graph.edgeTypeNames hnow)
    · intro hknown more
      rw [named_of_knowsNames hknown]

/-! ## A repeated node with a new name -/

theorem addNode_eq (b : GraphBuilder) (external : ExternalId) (names : List String) :
    b.addNode external names = (b.named (.addNode external names)).addNodeWithLabels external
      (b.labelNames.internAll names).1 :=
  rfl

theorem addNodeWithLabels_of_known {external : ExternalId} {labels : List LabelId} {node : NodeId}
    (hlabels : labels ≠ []) (h : b.nodes.node? external = some node) :
    b.addNodeWithLabels external labels = (.error (.duplicateNode external), b) := by
  unfold addNodeWithLabels
  dsimp only
  rw [List.getLast?_eq_some_getLast (Rows.ascending_ne_nil hlabels)]
  dsimp only
  rw [NodeTable.insert_of_eq_some h]

theorem addNode_of_known {external : ExternalId} {node : NodeId} {name : String}
    {names : List String} (h : b.nodes.node? external = some node) :
    (b.addNode external (name :: names)).1 = .error (.duplicateNode external) := by
  have hnode : (b.named (.addNode external (name :: names))).nodes.node? external = some node := h
  have hids : (b.labelNames.internAll (name :: names)).1 ≠ [] := List.cons_ne_nil _ _
  rw [addNode_eq, addNodeWithLabels_of_known hids hnode]

/-- A first node with one label that is given by its name. -/
theorem ofCalls_addNode (external : ExternalId) (name : String) :
    ofCalls [.addNode external [name]] =
      { labelNames := ⟨Numbering.push ∅ name (Numbering.position?_empty name)⟩
        nodes := ⟨Numbering.push ∅ external (Numbering.position?_empty external)⟩
        nodeLabels := #[[⟨0⟩]]
        labelBound := 1 } := by
  have hids : (∅ : Vocabulary .label).internAll [name] =
      ([⟨0⟩], ⟨Numbering.push ∅ name (Numbering.position?_empty name)⟩) := by
    show ([TypedId.ofIndex ((∅ : Numbering String).intern name).1],
      Vocabulary.mk ((∅ : Numbering String).intern name).2) = _
    rw [Numbering.intern_of_eq_none (Numbering.position?_empty name)]
    rfl
  have hinsert : (∅ : NodeTable).insert external =
      .ok (⟨0⟩, ⟨Numbering.push ∅ external (Numbering.position?_empty external)⟩) :=
    NodeTable.insert_of_eq_none (Numbering.position?_empty external) (by decide)
  have hlargest : (Rows.ascending [(⟨0⟩ : LabelId)]).getLast? = some ⟨0⟩ := rfl
  show (({} : GraphBuilder).addNode external [name]).2 = _
  rw [addNode_eq, named]
  dsimp only
  rw [hids]
  unfold addNodeWithLabels
  dsimp only
  rw [hlargest]
  dsimp only
  rw [hinsert]
  rfl

theorem addNode_again (external : ExternalId) (name other : String) :
    ((ofCalls [.addNode external [name]]).addNode external [other]).1 =
      .error (.duplicateNode external) := by
  have hnode : (ofCalls [.addNode external [name]]).nodes.node? external = some ⟨0⟩ := by
    rw [ofCalls_addNode, NodeTable.node?, Numbering.position?_push, if_pos BEq.rfl]
    rfl
  exact addNode_of_known hnode

theorem refuses_addNode_again (external : ExternalId) (name other : String) :
    (ofCalls [.addNode external [name]]).accepts (.addNode external [other]) = false :=
  congrArg Except.isOk (addNode_again external name other)

/-- A node that is added twice, the second time with a label that is new: the call is refused,
and the graph has a label more. -/
theorem refused_addNode_leaves_name :
    let b := ofCalls [.addNode ⟨1⟩ ["A"]]
    (b.addNode ⟨1⟩ ["B"]).1 = .error (.duplicateNode ⟨1⟩) ∧ b.after (.addNode ⟨1⟩ ["B"]) ≠ b ∧
      b.build.labelCount = 1 ∧ (b.after (.addNode ⟨1⟩ ["B"])).build.labelCount = 2 := by
  intro b
  have hb : b = _ := ofCalls_addNode ⟨1⟩ "A"
  have hbound : b.labelBound = 1 := by rw [hb]
  have hsize : b.labelNames.names.size = 1 := by rw [hb]; rfl
  have hcount : b.build.labelCount = 1 := by
    show max b.labelBound b.labelNames.names.size = 1
    omega
  have hfresh : b.labelNames.names.position? "B" = none := by
    rw [hb, Numbering.position?_push, if_neg (by decide), Numbering.position?_empty]
  have hgrown : (b.labelNames.names.intern "B").2.size = b.labelNames.names.size + 1 := by
    rw [Numbering.intern_of_eq_none hfresh]
    exact Array.size_push _
  have hmore : (b.after (.addNode ⟨1⟩ ["B"])).build.labelCount = 2 := by
    rw [after_of_refused (refuses_addNode_again ⟨1⟩ "A" "B")]
    show max b.labelBound (b.labelNames.names.intern "B").2.size = 2
    omega
  refine ⟨addNode_again ⟨1⟩ "A" "B", fun hsame => ?_, hcount, hmore⟩
  rw [hsame, hcount] at hmore
  cases hmore

/-- The same node: its label is known the first time that the call is repeated, and would
have to be known for the call to do no harm. -/
theorem refused_call_harmless_iff_again :
    let b := ofCalls [.addNode ⟨1⟩ ["A"]]
    b.after (.addNode ⟨1⟩ ["B"]) = b.named (.addNode ⟨1⟩ ["B"]) ∧
      (b.after (.addNode ⟨1⟩ ["B"]) = b ↔ b.KnowsNames (.addNode ⟨1⟩ ["B"])) ∧
      ((∀ more : List BuilderCall,
        (more.foldl after (b.after (.addNode ⟨1⟩ ["B"]))).build = (more.foldl after b).build) ↔
          b.KnowsNames (.addNode ⟨1⟩ ["B"])) :=
  refused_call_harmless_iff (refuses_addNode_again ⟨1⟩ "A" "B")

end GraphBuilder

end Hetnet
