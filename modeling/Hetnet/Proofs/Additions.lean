import Mathlib
import Hetnet.Proofs.BuiltGraphs
import Hetnet.Proofs.Numberings

/-!
# A builder holds what it has accepted

The calls of a run that are answered with success are its accepted calls, and each of them
stands for an addition: a node with labels or an arc with a type, once the names and
external ids of the call are read in the tables of the graph. These tables only grow, so
an addition read at the time of the call is still the same when the graph is built.

`Records b additions` says that the tables of a builder hold these additions and nothing
else. An accepted call adds its own addition at the end, a refused one adds none, and
so it holds after every run.
-/

namespace Hetnet

/-- What an accepted call adds, told by ids. -/
inductive Addition
  | node (external : ExternalId) (labels : List LabelId)
  | edge (arc : Arc) (edgeType : EdgeTypeId)

namespace Addition

/-- The nodes added, in order, each with the labels that it was given. -/
def nodes (additions : List Addition) : List (ExternalId × List LabelId) :=
  additions.filterMap fun
    | node external labels => some (external, labels)
    | edge _ _ => none

/-- The arcs added, in order, each with the type that it was given. -/
def edges (additions : List Addition) : List (Arc × EdgeTypeId) :=
  additions.filterMap fun
    | node _ _ => none
    | edge arc edgeType => some (arc, edgeType)

theorem nodes_append_node (additions : List Addition) (external : ExternalId)
    (labels : List LabelId) :
    nodes (additions ++ [.node external labels]) = nodes additions ++ [(external, labels)] := by
  simp [nodes]

theorem nodes_append_edge (additions : List Addition) (arc : Arc) (edgeType : EdgeTypeId) :
    nodes (additions ++ [.edge arc edgeType]) = nodes additions := by
  simp [nodes]

theorem edges_append_node (additions : List Addition) (external : ExternalId)
    (labels : List LabelId) : edges (additions ++ [.node external labels]) = edges additions := by
  simp [edges]

theorem edges_append_edge (additions : List Addition) (arc : Arc) (edgeType : EdgeTypeId) :
    edges (additions ++ [.edge arc edgeType]) = edges additions ++ [(arc, edgeType)] := by
  simp [edges]

theorem mem_nodes {additions : List Addition} {external : ExternalId} {labels : List LabelId} :
    (external, labels) ∈ nodes additions ↔ .node external labels ∈ additions := by
  rw [nodes, List.mem_filterMap]
  constructor
  · intro h
    obtain ⟨addition, hmem, heq⟩ := h
    cases addition with
    | node _ _ =>
        cases heq
        exact hmem
    | edge _ _ => cases heq
  · exact fun h => ⟨_, h, rfl⟩

theorem mem_edges {additions : List Addition} {arc : Arc} {edgeType : EdgeTypeId} :
    (arc, edgeType) ∈ edges additions ↔ .edge arc edgeType ∈ additions := by
  rw [edges, List.mem_filterMap]
  constructor
  · intro h
    obtain ⟨addition, hmem, heq⟩ := h
    cases addition with
    | node _ _ => cases heq
    | edge _ _ =>
        cases heq
        exact hmem
  · exact fun h => ⟨_, h, rfl⟩

end Addition

namespace Graph

/-- What a call adds when its names and external ids are read in the tables of a graph. -/
def addition? (g : Graph) : BuilderCall → Option Addition
  | .addNode external names => return .node external (← names.mapM g.labelNames.id?)
  | .addNodeWithLabels external labels => some (.node external labels)
  | .addEdge src dst name =>
      return .edge ⟨← g.nodes.node? src, ← g.nodes.node? dst⟩ (← g.edgeTypeNames.id? name)
  | .addEdgeWithType src dst edgeType =>
      return .edge ⟨← g.nodes.node? src, ← g.nodes.node? dst⟩ edgeType

/-- Whatever has an id in the tables of the first graph has the same id in the second. -/
structure Grows (g h : Graph) : Prop where
  labelNames : ∀ name id, g.labelNames.id? name = some id → h.labelNames.id? name = some id
  edgeTypeNames : ∀ name id,
    g.edgeTypeNames.id? name = some id → h.edgeTypeNames.id? name = some id
  nodes : ∀ external node,
    g.nodes.node? external = some node → h.nodes.node? external = some node

theorem Grows.refl (g : Graph) : g.Grows g := ⟨fun _ _ h => h, fun _ _ h => h, fun _ _ h => h⟩

theorem Grows.trans {g h k : Graph} (hfirst : g.Grows h) (hsecond : h.Grows k) : g.Grows k where
  labelNames name id hid := hsecond.labelNames name id (hfirst.labelNames name id hid)
  edgeTypeNames name id hid := hsecond.edgeTypeNames name id (hfirst.edgeTypeNames name id hid)
  nodes external node hnode := hsecond.nodes external node (hfirst.nodes external node hnode)

theorem mapM_eq_some_of_imp {α β : Type} {f f' : α → Option β}
    (himp : ∀ a b, f a = some b → f' a = some b) {list : List α} {out : List β}
    (h : list.mapM f = some out) : list.mapM f' = some out := by
  induction list generalizing out with
  | nil => exact h
  | cons a rest ih =>
      rw [List.mapM_cons] at h ⊢
      obtain ⟨b, hb, h⟩ := Option.bind_eq_some_iff.mp h
      obtain ⟨bs, hbs, h⟩ := Option.bind_eq_some_iff.mp h
      rw [himp a b hb]
      show (rest.mapM f').bind _ = _
      rw [ih hbs]
      exact h

theorem Grows.addition? {g h : Graph} (hgrows : g.Grows h) {call : BuilderCall}
    {addition : Addition} (hcall : g.addition? call = some addition) :
    h.addition? call = some addition := by
  cases call with
  | addNode external names =>
      obtain ⟨labels, hlabels, hresult⟩ := Option.bind_eq_some_iff.mp hcall
      refine Option.bind_eq_some_iff.mpr ⟨labels, ?_, hresult⟩
      exact mapM_eq_some_of_imp hgrows.labelNames hlabels
  | addNodeWithLabels external labels => exact hcall
  | addEdge src dst name =>
      obtain ⟨first, hfirst, hcall⟩ := Option.bind_eq_some_iff.mp hcall
      obtain ⟨second, hsecond, hcall⟩ := Option.bind_eq_some_iff.mp hcall
      obtain ⟨edgeType, htype, hresult⟩ := Option.bind_eq_some_iff.mp hcall
      exact Option.bind_eq_some_iff.mpr ⟨first, hgrows.nodes _ _ hfirst,
        Option.bind_eq_some_iff.mpr ⟨second, hgrows.nodes _ _ hsecond,
          Option.bind_eq_some_iff.mpr ⟨edgeType, hgrows.edgeTypeNames _ _ htype, hresult⟩⟩⟩
  | addEdgeWithType src dst edgeType =>
      obtain ⟨first, hfirst, hcall⟩ := Option.bind_eq_some_iff.mp hcall
      obtain ⟨second, hsecond, hresult⟩ := Option.bind_eq_some_iff.mp hcall
      exact Option.bind_eq_some_iff.mpr ⟨first, hgrows.nodes _ _ hfirst,
        Option.bind_eq_some_iff.mpr ⟨second, hgrows.nodes _ _ hsecond, hresult⟩⟩

end Graph

namespace GraphBuilder

/-- Whether a call is answered with success. -/
def accepts (b : GraphBuilder) : BuilderCall → Bool
  | .addNode external names => (b.addNode external names).1.isOk
  | .addNodeWithLabels external labels => (b.addNodeWithLabels external labels).1.isOk
  | .addEdge src dst name => (b.addEdge src dst name).1.isOk
  | .addEdgeWithType src dst edgeType => (b.addEdgeWithType src dst edgeType).1.isOk

/-- The calls that are answered with success when a builder goes on with a run. -/
def acceptedFrom (b : GraphBuilder) : List BuilderCall → List BuilderCall
  | [] => []
  | call :: rest =>
      if b.accepts call then call :: (b.after call).acceptedFrom rest
      else (b.after call).acceptedFrom rest

/-- The calls of a run from the beginning that are answered with success, in order. -/
def accepted (calls : List BuilderCall) : List BuilderCall := acceptedFrom {} calls

/-- The node tables of a builder hold the given nodes, in order, and no others. -/
structure HoldsNodes (b : GraphBuilder) (nodes : List (ExternalId × List LabelId)) : Prop where
  room : b.nodes.size ≤ UInt32.size
  externals : b.nodes.externals.keys.toList = nodes.map Prod.fst
  labels : b.nodeLabels.toList = nodes.map fun entry => Rows.ascending entry.2
  labelled : ∀ entry ∈ nodes, entry.2 ≠ []
  bound : ∀ entry ∈ nodes, ∀ label ∈ entry.2, label.index < b.labelBound

/-- The edge types of a builder are those of the given edges, one for each unordered pair. -/
structure HoldsEdges (b : GraphBuilder) (edges : List (Arc × EdgeTypeId)) : Prop where
  mem_iff : ∀ (arc : Arc) edgeType, b.edgeTypes[arc]? = some edgeType ↔ (arc, edgeType) ∈ edges
  oneType : ∀ (arc : Arc) edgeType other, b.edgeTypes[arc]? = some edgeType →
    b.edgeTypes[arc.reverse]? = some other → edgeType = other
  bound : ∀ entry ∈ edges, entry.2.index < b.edgeTypeBound

/-- The tables of a builder hold the given additions and nothing else. -/
structure Records (b : GraphBuilder) (additions : List Addition) : Prop where
  nodes : b.HoldsNodes (Addition.nodes additions)
  edges : b.HoldsEdges (Addition.edges additions)

variable {b : GraphBuilder} {additions : List Addition}

/-! ## Adding to the tables -/

theorem index_le_of_getLast?_ascending {labels : List LabelId} {largest : LabelId}
    (h : (Rows.ascending labels).getLast? = some largest) {label : LabelId}
    (hlabel : label ∈ labels) : label.index ≤ largest.index := by
  obtain ⟨before, hsplit⟩ := List.getLast?_eq_some_iff.mp h
  have hordered := Rows.pairwise_ascending labels
  rw [hsplit, List.pairwise_append] at hordered
  rw [← Rows.mem_ascending, hsplit] at hlabel
  rcases List.mem_append.mp hlabel with hmem | hmem
  · have hlt := hordered.2.2 label hmem largest (List.mem_singleton_self _)
    exact (TypedId.compare_eq_lt.mp hlt).le
  · rw [List.mem_singleton.mp hmem]

theorem HoldsNodes.push {entries : List (ExternalId × List LabelId)} (h : b.HoldsNodes entries)
    {external : ExternalId} {labels : List LabelId} {largest : LabelId}
    (hlargest : (Rows.ascending labels).getLast? = some largest) {node : NodeId}
    {nodes : NodeTable} (hinsert : b.nodes.insert external = .ok (node, nodes)) :
    HoldsNodes
      { b with
        nodes
        nodeLabels := b.nodeLabels.push (Rows.ascending labels)
        labelBound := max b.labelBound (largest.index + 1) }
      (entries ++ [(external, labels)]) := by
  obtain ⟨-, hroom, hkeys, -⟩ := NodeTable.insert_eq_ok hinsert
  constructor
  case room =>
    show nodes.size ≤ _
    rw [NodeTable.size_insert hinsert]
    exact hroom
  case externals =>
    show nodes.externals.keys.toList = _
    rw [hkeys, Array.toList_push, h.externals, List.map_append]
    rfl
  case labels =>
    show (b.nodeLabels.push _).toList = _
    rw [Array.toList_push, h.labels, List.map_append]
    rfl
  case labelled =>
    intro entry hentry
    rcases List.mem_append.mp hentry with hold | hnew
    · exact h.labelled entry hold
    · rw [List.mem_singleton.mp hnew]
      rintro rfl
      cases hlargest
  case bound =>
    intro entry hentry label hlabel
    show label.index < max b.labelBound (largest.index + 1)
    rcases List.mem_append.mp hentry with hold | hnew
    · exact lt_of_lt_of_le (h.bound entry hold label hlabel) (Nat.le_max_left _ _)
    · rw [List.mem_singleton.mp hnew] at hlabel
      have := index_le_of_getLast?_ascending hlargest hlabel
      omega

theorem getElem?_insert_arc {types : Std.ExtTreeMap Arc EdgeTypeId} {arc other : Arc}
    {edgeType : EdgeTypeId} : (types.insert arc edgeType)[other]? =
      if arc = other then some edgeType else types[other]? := by
  simp only [Std.ExtTreeMap.getElem?_insert, Std.LawfulEqOrd.compare_eq_iff_eq]

/-- An arc can be added when what is there for it and for its reverse has the same type. -/
theorem HoldsEdges.insert {entries : List (Arc × EdgeTypeId)} (h : b.HoldsEdges entries)
    {arc : Arc} {edgeType : EdgeTypeId}
    (harc : ∀ old, b.edgeTypes[arc]? = some old → old = edgeType)
    (hreverse : ∀ old, b.edgeTypes[arc.reverse]? = some old → old = edgeType) :
    HoldsEdges
      { b with
        edgeTypes := b.edgeTypes.insert arc edgeType
        edgeTypeBound := max b.edgeTypeBound (edgeType.index + 1) }
      (entries ++ [(arc, edgeType)]) := by
  constructor
  case mem_iff =>
    intro other type
    show (b.edgeTypes.insert arc edgeType)[other]? = some type ↔ _
    rw [getElem?_insert_arc, List.mem_append, List.mem_singleton, Prod.mk.injEq, ← h.mem_iff]
    split
    · next heq =>
        subst heq
        constructor
        · intro hnew
          exact Or.inr ⟨rfl, (Option.some.inj hnew).symm⟩
        · rintro (hold | ⟨-, rfl⟩)
          · rw [harc type hold]
          · rfl
    · next hne => rw [or_iff_left fun heq => hne heq.1.symm]
  case oneType =>
    intro other first second hfirst hsecond
    replace hfirst : (b.edgeTypes.insert arc edgeType)[other]? = some first := hfirst
    replace hsecond : (b.edgeTypes.insert arc edgeType)[other.reverse]? = some second := hsecond
    rw [getElem?_insert_arc] at hfirst hsecond
    split at hfirst
    · next heq =>
        subst heq
        cases hfirst
        split at hsecond
        · exact Option.some.inj hsecond
        · exact (hreverse second hsecond).symm
    · split at hsecond
      · next heq =>
          subst heq
          cases hsecond
          exact hreverse first hfirst
      · exact h.oneType other first second hfirst hsecond
  case bound =>
    intro entry hentry
    show entry.2.index < max b.edgeTypeBound (edgeType.index + 1)
    rcases List.mem_append.mp hentry with hold | hnew
    · exact lt_of_lt_of_le (h.bound entry hold) (Nat.le_max_left _ _)
    · rw [List.mem_singleton.mp hnew]
      show edgeType.index < _
      omega

/-! ## Calls

A call either refuses and leaves the additions as they are, or adds one at the end. -/

/-- An answer that refuses and changes nothing, or succeeds and records one addition. -/
def Adds {α : Type} (b : GraphBuilder) (additions : List Addition) (addition : Addition)
    (answer : Except Error α × GraphBuilder) : Prop :=
  (∃ error, answer = (.error error, b)) ∨
    ∃ value grown, answer = (.ok value, grown) ∧ b.build.Grows grown.build ∧
      grown.Records (additions ++ [addition])

theorem adds_addNodeWithLabels (h : b.Records additions) (external : ExternalId)
    (labels : List LabelId) :
    b.Adds additions (.node external labels) (b.addNodeWithLabels external labels) := by
  unfold addNodeWithLabels
  dsimp only
  split
  · exact Or.inl ⟨_, rfl⟩
  · next largest hlargest =>
      split
      · exact Or.inl ⟨_, rfl⟩
      · next node nodes hinsert =>
          obtain ⟨-, -, -, hgrows⟩ := NodeTable.insert_eq_ok hinsert
          refine Or.inr ⟨_, _, rfl, ⟨fun _ _ h => h, fun _ _ h => h, hgrows⟩, ?_, ?_⟩
          · rw [Addition.nodes_append_node]
            exact h.nodes.push hlargest hinsert
          · rw [Addition.edges_append_node]
            exact ⟨h.edges.mem_iff, h.edges.oneType, h.edges.bound⟩

theorem adds_addArc (h : b.Records additions) (arc : Arc) (edgeType : EdgeTypeId) :
    b.Adds additions (.edge arc edgeType) (b.addArc arc edgeType) := by
  unfold addArc
  split
  · next hagrees =>
      have harc : ∀ old, b.edgeTypes[arc]? = some old → old = edgeType := by
        intro old hold
        rw [existing?, hold] at hagrees
        simpa using hagrees
      have hreverse : ∀ old, b.edgeTypes[arc.reverse]? = some old → old = edgeType := by
        intro old hold
        cases hsame : b.edgeTypes[arc]? with
        | some other => rw [← h.edges.oneType arc other old hsame hold, harc other hsame]
        | none =>
            rw [existing?, hsame, hold] at hagrees
            simpa using hagrees
      refine Or.inr ⟨_, _, rfl, ⟨fun _ _ h => h, fun _ _ h => h, fun _ _ h => h⟩, ?_, ?_⟩
      · rw [Addition.nodes_append_edge]
        exact ⟨h.nodes.room, h.nodes.externals, h.nodes.labels, h.nodes.labelled, h.nodes.bound⟩
      · rw [Addition.edges_append_edge]
        exact h.edges.insert harc hreverse
  · exact Or.inl ⟨_, rfl⟩

theorem resolve_eq_ok {external : ExternalId} {node : NodeId} (h : b.resolve external = .ok node) :
    b.nodes.node? external = some node := by
  rw [resolve] at h
  split at h
  · next hnode =>
      cases h
      exact hnode
  · cases h

theorem resolveArc_eq_ok {src dst : ExternalId} {arc : Arc} (h : b.resolveArc src dst = .ok arc) :
    b.nodes.node? src = some arc.src ∧ b.nodes.node? dst = some arc.dst := by
  rw [resolveArc] at h
  cases hsrc : b.resolve src with
  | error cause =>
      rw [hsrc] at h
      cases h
  | ok first =>
      cases hdst : b.resolve dst with
      | error cause =>
          rw [hsrc, hdst] at h
          cases h
      | ok second =>
          rw [hsrc, hdst] at h
          cases h
          exact ⟨resolve_eq_ok hsrc, resolve_eq_ok hdst⟩

/-- What a call does to a builder that records additions. -/
structure Steps (b : GraphBuilder) (additions : List Addition) (call : BuilderCall) : Prop where
  grows : b.build.Grows (b.after call).build
  refused : b.accepts call = false → (b.after call).Records additions
  accepted : b.accepts call = true → ∃ addition,
    (b.after call).build.addition? call = some addition ∧
      (b.after call).Records (additions ++ [addition])

/-- A call steps if it first lets the names grow, which adds nothing, and then gives the
answer of an operation that adds what the call stands for. -/
theorem steps_of_adds {α : Type} {call : BuilderCall} {named : GraphBuilder}
    {answer : Except Error α × GraphBuilder} {addition : Addition}
    (hgrows : b.build.Grows named.build) (h : named.Records additions)
    (hread : named.build.addition? call = some addition)
    (hadds : named.Adds additions addition answer) (hafter : b.after call = answer.2)
    (haccepts : b.accepts call = answer.1.isOk) : b.Steps additions call := by
  obtain ⟨error, rfl⟩ | ⟨value, grown, rfl, hmore, hrecords⟩ := hadds
  · refine ⟨hafter ▸ hgrows, fun _ => hafter ▸ h, fun haccepted => ?_⟩
    rw [haccepts] at haccepted
    cases haccepted
  · refine ⟨hafter ▸ hgrows.trans hmore, fun hrefused => ?_, fun _ => ?_⟩
    · rw [haccepts] at hrefused
      cases hrefused
    · exact hafter ▸ ⟨addition, hmore.addition? hread, hrecords⟩

/-- A call that refuses before it changes anything steps. -/
theorem steps_of_refused {call : BuilderCall} (h : b.Records additions) (hafter : b.after call = b)
    (haccepts : b.accepts call = false) : b.Steps additions call := by
  refine ⟨hafter.symm ▸ .refl _, fun _ => hafter.symm ▸ h, fun haccepted => ?_⟩
  rw [haccepts] at haccepted
  cases haccepted

/-- Names are no part of what is recorded. -/
theorem Records.rename (h : b.Records additions) (labelNames : Vocabulary .label)
    (edgeTypeNames : Vocabulary .edgeType) :
    Records { b with labelNames, edgeTypeNames } additions :=
  ⟨⟨h.nodes.room, h.nodes.externals, h.nodes.labels, h.nodes.labelled, h.nodes.bound⟩,
    ⟨h.edges.mem_iff, h.edges.oneType, h.edges.bound⟩⟩

theorem steps_addNode (h : b.Records additions) (external : ExternalId) (names : List String) :
    b.Steps additions (.addNode external names) := by
  let named : GraphBuilder := { b with labelNames := (b.labelNames.internAll names).2 }
  have hnamed : named.Records additions := h.rename _ b.edgeTypeNames
  have hread : named.build.addition? (.addNode external names) =
      some (.node external (b.labelNames.internAll names).1) :=
    Option.bind_eq_some_iff.mpr ⟨_, Vocabulary.mapM_id?_internAll _ _, rfl⟩
  have hgrows : b.build.Grows named.build :=
    ⟨fun _ _ hid => Vocabulary.id?_internAll_of_eq_some hid names, fun _ _ hid => hid,
      fun _ _ hid => hid⟩
  exact steps_of_adds hgrows hnamed hread (adds_addNodeWithLabels hnamed external _) rfl rfl

theorem steps_addEdge (h : b.Records additions) (src dst : ExternalId) (name : String) :
    b.Steps additions (.addEdge src dst name) := by
  cases harc : b.resolveArc src dst with
  | error cause =>
      have hanswer : b.addEdge src dst name = (.error cause, b) := by rw [addEdge, harc]
      exact steps_of_refused h (congrArg Prod.snd hanswer)
        (congrArg (fun answer => answer.1.isOk) hanswer)
  | ok arc =>
      obtain ⟨hsrc, hdst⟩ := resolveArc_eq_ok harc
      let named : GraphBuilder := { b with edgeTypeNames := (b.edgeTypeNames.intern name).2 }
      have hnamed : named.Records additions := h.rename b.labelNames _
      have hread : named.build.addition? (.addEdge src dst name) =
          some (.edge arc (b.edgeTypeNames.intern name).1) :=
        Option.bind_eq_some_iff.mpr ⟨_, hsrc, Option.bind_eq_some_iff.mpr ⟨_, hdst,
          Option.bind_eq_some_iff.mpr ⟨_, Vocabulary.id?_intern _ _, rfl⟩⟩⟩
      have hanswer : b.addEdge src dst name =
          named.addArc arc (b.edgeTypeNames.intern name).1 := by
        rw [addEdge, harc]
      have hgrows : b.build.Grows named.build :=
        ⟨fun _ _ hid => hid, fun _ _ hid => Vocabulary.id?_intern_of_eq_some hid name,
          fun _ _ hid => hid⟩
      exact steps_of_adds hgrows hnamed hread (adds_addArc hnamed arc _)
        (congrArg Prod.snd hanswer) (congrArg (fun answer => answer.1.isOk) hanswer)

theorem steps_addEdgeWithType (h : b.Records additions) (src dst : ExternalId)
    (edgeType : EdgeTypeId) : b.Steps additions (.addEdgeWithType src dst edgeType) := by
  cases harc : b.resolveArc src dst with
  | error cause =>
      have hanswer : b.addEdgeWithType src dst edgeType = (.error cause, b) := by
        rw [addEdgeWithType, harc]
      exact steps_of_refused h (congrArg Prod.snd hanswer)
        (congrArg (fun answer => answer.1.isOk) hanswer)
  | ok arc =>
      obtain ⟨hsrc, hdst⟩ := resolveArc_eq_ok harc
      have hread : b.build.addition? (.addEdgeWithType src dst edgeType) =
          some (.edge arc edgeType) :=
        Option.bind_eq_some_iff.mpr ⟨_, hsrc, Option.bind_eq_some_iff.mpr ⟨_, hdst, rfl⟩⟩
      have hanswer : b.addEdgeWithType src dst edgeType = b.addArc arc edgeType := by
        rw [addEdgeWithType, harc]
      exact steps_of_adds (.refl _) h hread (adds_addArc h arc edgeType)
        (congrArg Prod.snd hanswer) (congrArg (fun answer => answer.1.isOk) hanswer)

theorem steps (h : b.Records additions) (call : BuilderCall) : b.Steps additions call := by
  cases call with
  | addNode external names => exact steps_addNode h external names
  | addNodeWithLabels external labels =>
      exact steps_of_adds (.refl _) h rfl (adds_addNodeWithLabels h external labels) rfl rfl
  | addEdge src dst name => exact steps_addEdge h src dst name
  | addEdgeWithType src dst edgeType => exact steps_addEdgeWithType h src dst edgeType

/-! ## Runs -/

/-- A run goes on from a builder that records some additions by recording those of the calls
that it accepts, as the graph built at its end reads them. -/
theorem records_foldl (h : b.Records additions) (calls : List BuilderCall) :
    b.build.Grows (calls.foldl after b).build ∧
      ∃ more, (b.acceptedFrom calls).mapM (calls.foldl after b).build.addition? = some more ∧
        (calls.foldl after b).Records (additions ++ more) := by
  induction calls generalizing b additions with
  | nil => exact ⟨.refl _, [], rfl, by rwa [List.append_nil]⟩
  | cons call rest ih =>
      have hstep := steps h call
      rw [List.foldl_cons, acceptedFrom]
      cases haccepts : b.accepts call with
      | false =>
          obtain ⟨hgrows, more, hmore, hrecords⟩ := ih (hstep.refused haccepts)
          exact ⟨hstep.grows.trans hgrows, more, hmore, hrecords⟩
      | true =>
          obtain ⟨addition, hread, hadded⟩ := hstep.accepted haccepts
          obtain ⟨hgrows, more, hmore, hrecords⟩ := ih hadded
          refine ⟨hstep.grows.trans hgrows, addition :: more, ?_, ?_⟩
          · rw [if_pos rfl, List.mapM_cons]
            exact Option.bind_eq_some_iff.mpr ⟨addition, hgrows.addition? hread,
              Option.bind_eq_some_iff.mpr ⟨more, hmore, rfl⟩⟩
          · rw [List.append_assoc] at hrecords
            exact hrecords

theorem records_empty : Records {} [] := by
  refine ⟨⟨Nat.zero_le _, rfl, rfl, ?_, ?_⟩, ⟨fun arc edgeType => ?_, ?_, ?_⟩⟩
  · intro entry hentry
    cases hentry
  · intro entry hentry
    cases hentry
  · exact iff_of_false (by simp) (by simp [Addition.edges])
  · intro arc edgeType other harc
    simp at harc
  · intro entry hentry
    cases hentry

/-- The builder after a run records the additions of the accepted calls. -/
theorem records_ofCalls (calls : List BuilderCall) :
    ∃ additions, (accepted calls).mapM (ofCalls calls).build.addition? = some additions ∧
      (ofCalls calls).Records additions := by
  obtain ⟨-, more, hmore, hrecords⟩ := records_foldl records_empty calls
  exact ⟨more, hmore, hrecords⟩

end GraphBuilder

end Hetnet
