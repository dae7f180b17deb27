import Mathlib
import Hetnet.Proofs.FrozenGraphs
import Hetnet.Proofs.GraphTexts

/-!
# Every id in a named graph was given to a name

A caller who declares nodes and edges by name never makes up an id. The labels and edge types of
such a graph are then those that its vocabularies have handed out, each for a name, and the
vocabularies still know the name. The calls can have been refused here and there, and a refused
call may leave names behind that nothing carries, so it is the other direction that holds: what
is carried has a name (`exists_name_of_label`, `exists_name_of_edgeType`).

An id belongs to a name from the call on that first gave the name to a node or an edge, because
vocabularies only grow (`GraphBuilder.grows_ofDeclarations`).
-/

namespace Hetnet

namespace GraphBuilder

/-- The builder after the calls of some declarations, whether they were accepted or not. -/
def ofDeclarations (declarations : List Declaration) : GraphBuilder :=
  ofCalls (declarations.map Declaration.call)

/-- A node was added with a label of this name, and the id of the label was from then on this
one. -/
def LabelGiven (declarations : List Declaration) (name : String) (label : LabelId) : Prop :=
  ∃ before id names after, declarations = before ++ .node id names :: after ∧ name ∈ names ∧
    (ofDeclarations before).accepts (.addNode id names) = true ∧
      (ofDeclarations (before ++ [.node id names])).labelNames.id? name = some label

/-- An edge was added with a type of this name, and the id of the type was from then on this
one. -/
def TypeGiven (declarations : List Declaration) (name : String) (edgeType : EdgeTypeId) : Prop :=
  ∃ before src dst after, declarations = before ++ .edge src dst name :: after ∧
    (ofDeclarations before).accepts (.addEdge src dst name) = true ∧
      (ofDeclarations (before ++ [.edge src dst name])).edgeTypeNames.id? name = some edgeType

/-! ## Runs cut in two -/

theorem ofDeclarations_append (before after : List Declaration) :
    ofDeclarations (before ++ after) =
      (after.map Declaration.call).foldl GraphBuilder.after (ofDeclarations before) := by
  rw [ofDeclarations, List.map_append, ofCalls, List.foldl_append]
  rfl

/-- What has an id after a declaration has the same id after all that follow. -/
theorem grows_ofDeclarations (before : List Declaration) (declaration : Declaration)
    (after : List Declaration) : (ofDeclarations (before ++ [declaration])).build.Grows
      (ofDeclarations (before ++ declaration :: after)).build := by
  obtain ⟨additions, -, hrecords⟩ :=
    records_ofCalls ((before ++ [declaration]).map Declaration.call)
  have hrun := ofDeclarations_append (before ++ [declaration]) after
  rw [← List.append_cons] at hrun
  rw [hrun]
  exact (records_foldl hrecords (after.map Declaration.call)).1

/-- A call that is accepted on the way is accepted after the calls before it. -/
theorem exists_split_of_mem_acceptedFrom {b : GraphBuilder} {calls : List BuilderCall}
    {call : BuilderCall} (h : call ∈ b.acceptedFrom calls) :
    ∃ before after, calls = before ++ call :: after ∧
      (before.foldl GraphBuilder.after b).accepts call = true := by
  induction calls generalizing b with
  | nil => cases h
  | cons first rest ih =>
      have hlater : call ∈ (b.after first).acceptedFrom rest →
          ∃ before after, first :: rest = before ++ call :: after ∧
            (before.foldl GraphBuilder.after b).accepts call = true := by
        intro hmem
        obtain ⟨before, after, rfl, haccept⟩ := ih hmem
        exact ⟨first :: before, after, rfl, haccept⟩
      rw [acceptedFrom] at h
      split at h
      · next haccept =>
          rcases List.mem_cons.mp h with rfl | hmem
          · exact ⟨[], rest, rfl, haccept⟩
          · exact hlater hmem
      · exact hlater h

/-- What was added stands in one of the declarations, which was accepted when its turn came. -/
theorem exists_declaration_of_mem {declarations : List Declaration} {additions : List Addition}
    (hadditions : (accepted (declarations.map Declaration.call)).mapM
      (ofDeclarations declarations).build.addition? = some additions)
    {addition : Addition} (h : addition ∈ additions) :
    ∃ before declaration after, declarations = before ++ declaration :: after ∧
      (ofDeclarations before).accepts declaration.call = true ∧
        (ofDeclarations declarations).build.addition? declaration.call = some addition := by
  obtain ⟨call, hcall, hread⟩ := (mem_of_mapM_eq_some hadditions).mp h
  obtain ⟨first, second, hsplit, haccept⟩ := exists_split_of_mem_acceptedFrom hcall
  obtain ⟨before, others, rfl, rfl, hothers⟩ := List.map_eq_append_iff.mp hsplit
  obtain ⟨declaration, after, rfl, rfl, rfl⟩ := List.map_eq_cons_iff.mp hothers
  exact ⟨before, declaration, after, rfl, haccept, hread⟩

theorem Records.exists_node_of_mem_labels {b : GraphBuilder} {additions : List Addition}
    (h : b.Records additions) {node : NodeId} {label : LabelId}
    (hlabel : label ∈ b.build.labels node) :
    ∃ external labels, .node external labels ∈ additions ∧ label ∈ labels := by
  rw [labels_build, h.nodes.labels, List.getElem?_map] at hlabel
  cases hentry : (Addition.nodes additions)[node.index]? with
  | none =>
      rw [hentry] at hlabel
      cases hlabel
  | some entry =>
      rw [hentry] at hlabel
      exact ⟨entry.1, entry.2, Addition.mem_nodes.mp (List.mem_of_getElem? hentry),
        Rows.mem_ascending.mp hlabel⟩

theorem Records.exists_edge_of_edgeType {b : GraphBuilder} {additions : List Addition}
    (h : b.Records additions) {src dst : NodeId} {edgeType : EdgeTypeId}
    (htype : b.build.edgeType src dst = .ok edgeType) : ∃ arc, .edge arc edgeType ∈ additions := by
  rcases h.edgeType_eq_ok.mp htype with hforth | hback
  · exact ⟨_, Addition.mem_edges.mp hforth⟩
  · exact ⟨_, Addition.mem_edges.mp hback⟩

/-! ## The names of labels and edge types -/

variable {declarations : List Declaration}

theorem knows_label_of_accepts {before : List Declaration} {id : ExternalId}
    {names : List String} {name : String} (hname : name ∈ names)
    (haccept : (ofDeclarations before).accepts (.addNode id names) = true) :
    (ofDeclarations (before ++ [.node id names])).labelNames.Knows name := by
  rw [ofDeclarations_append]
  show ((ofDeclarations before).after (Declaration.node id names).call).labelNames.Knows name
  rw [(names_after haccept).1]
  exact Vocabulary.knows_internAll_iff.mpr (.inr hname)

theorem knows_type_of_accepts {before : List Declaration} {src dst : ExternalId} {name : String}
    (haccept : (ofDeclarations before).accepts (.addEdge src dst name) = true) :
    (ofDeclarations (before ++ [.edge src dst name])).edgeTypeNames.Knows name := by
  replace haccept :
      (ofDeclarations before).accepts (Declaration.edge src dst name).call = true := haccept
  rw [ofDeclarations_append]
  show ((ofDeclarations before).after (Declaration.edge src dst name).call).edgeTypeNames.Knows name
  rw [(names_after haccept).2]
  exact ⟨_, Vocabulary.id?_intern _ name⟩

/-- Every label of a node has a name, which was given to it when a node was added. -/
theorem exists_name_of_label {node : NodeId} {label : LabelId}
    (h : label ∈ (ofDeclarations declarations).build.labels node) :
    ∃ name, (ofDeclarations declarations).labelNames.id? name = some label ∧
      LabelGiven declarations name label := by
  obtain ⟨additions, hadditions, hrecords⟩ := records_ofCalls (declarations.map Declaration.call)
  obtain ⟨external, labels, hmem, hlabel⟩ := hrecords.exists_node_of_mem_labels h
  obtain ⟨before, declaration, after, rfl, haccept, hread⟩ :=
    exists_declaration_of_mem hadditions hmem
  cases declaration with
  | edge src dst type =>
      obtain ⟨first, -, hread⟩ := Option.bind_eq_some_iff.mp hread
      obtain ⟨second, -, hread⟩ := Option.bind_eq_some_iff.mp hread
      obtain ⟨edgeType, -, hread⟩ := Option.bind_eq_some_iff.mp hread
      cases hread
  | node id names =>
      obtain ⟨ids, hids, hread⟩ := Option.bind_eq_some_iff.mp hread
      cases hread
      obtain ⟨name, hname, hid⟩ := (mem_of_mapM_eq_some hids).mp hlabel
      obtain ⟨given, hgiven⟩ := knows_label_of_accepts hname haccept
      -- The name still has the id that it was given, and that is the label.
      have hlater := (grows_ofDeclarations before _ after).labelNames name given hgiven
      obtain rfl : given = label := Option.some.inj (hlater.symm.trans hid)
      exact ⟨name, hid, before, _, names, after, rfl, hname, haccept, hgiven⟩

/-- Every edge type has a name, which was given to it when an edge was added. -/
theorem exists_name_of_edgeType {src dst : NodeId} {edgeType : EdgeTypeId}
    (h : (ofDeclarations declarations).build.edgeType src dst = .ok edgeType) :
    ∃ name, (ofDeclarations declarations).edgeTypeNames.id? name = some edgeType ∧
      TypeGiven declarations name edgeType := by
  obtain ⟨additions, hadditions, hrecords⟩ := records_ofCalls (declarations.map Declaration.call)
  obtain ⟨arc, hmem⟩ := hrecords.exists_edge_of_edgeType h
  obtain ⟨before, declaration, after, rfl, haccept, hread⟩ :=
    exists_declaration_of_mem hadditions hmem
  cases declaration with
  | node id names =>
      obtain ⟨labels, -, hread⟩ := Option.bind_eq_some_iff.mp hread
      cases hread
  | edge first second name =>
      obtain ⟨_, -, hread⟩ := Option.bind_eq_some_iff.mp hread
      obtain ⟨_, -, hread⟩ := Option.bind_eq_some_iff.mp hread
      obtain ⟨type, hid, hread⟩ := Option.bind_eq_some_iff.mp hread
      cases hread
      obtain ⟨given, hgiven⟩ := knows_type_of_accepts haccept
      have hlater := (grows_ofDeclarations before _ after).edgeTypeNames name given hgiven
      obtain rfl : given = edgeType := Option.some.inj (hlater.symm.trans hid)
      exact ⟨name, hid, before, first, second, after, rfl, haccept, hgiven⟩

end GraphBuilder

/-! ## Graphs from texts -/

namespace Text

theorem exists_declarations_of_foldlM {entries : List (List (List Char))} {b grown : GraphBuilder}
    (h : entries.foldlM addElement b = .ok grown) : ∃ declarations : List Declaration,
      grown = (declarations.map Declaration.call).foldl GraphBuilder.after b := by
  induction entries generalizing b with
  | nil =>
      cases h
      exact ⟨[], rfl⟩
  | cons entry rest ih =>
      rw [List.foldlM_cons] at h
      obtain ⟨next, hnext, hrest⟩ := ok_of_bind h
      obtain ⟨declaration, -, -, rfl⟩ := addElement_eq_ok_iff.mp hnext
      obtain ⟨declarations, rfl⟩ := ih hrest
      exact ⟨declaration :: declarations, rfl⟩

/-- The reader of graphs builds from declarations. -/
theorem exists_declarations_of_readGraph {text : String} {g : Graph} (h : readGraph text = .ok g) :
    ∃ declarations, g = (GraphBuilder.ofDeclarations declarations).build := by
  have hread := mapError_fault_readGraph text
  rw [h] at hread
  cases hfold : (entriesOf (linesOf text)).foldlM addElement ({} : GraphBuilder) with
  | error fault =>
      rw [hfold] at hread
      cases hread
  | ok b =>
      rw [hfold] at hread
      cases hread
      obtain ⟨declarations, rfl⟩ := exists_declarations_of_foldlM hfold
      exact ⟨declarations, rfl⟩

end Text

end Hetnet
