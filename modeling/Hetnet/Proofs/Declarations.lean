import Mathlib
import Hetnet.Proofs.Acceptance

/-!
# Declarations and the calls that they make

The text of a graph is a list of declarations, each admissible after those before it. A
builder does not see this list. It is handed one call for each declaration, and it knows what
its tables hold; so what has to be shown is that it accepts the call of a declaration
exactly when the declaration is admissible. `GraphBuilder.Took` is the invariant for
this: the tables of the builder say what the declarations so far have said, and its
vocabularies hold their names and no others.

The last part matters because names are compared by their ids. A vocabulary of more names
than there are ids would give two of them the same id, so it is asked that there is room
for the declarations (`Declaration.Room`).
-/

namespace Hetnet

/-- What a line of a graph declares. -/
inductive Declaration
  | node (id : ExternalId) (names : List String)
  | edge (src dst : ExternalId) (type : String)

namespace Declaration

/-- The call that adds what is declared. -/
def call : Declaration → BuilderCall
  | node id names => .addNode id names
  | edge src dst type => .addEdge src dst type

/-- Whether a declaration may follow others: a node has a name among its labels and an id that
is new, an edge joins nodes that are declared and has the type of every other edge between
the two. -/
def Admissible (before : List Declaration) : Declaration → Prop
  | node id names => names ≠ [] ∧ ∀ others, node id others ∉ before
  | edge src dst type =>
      (∃ names, node src names ∈ before) ∧ (∃ names, node dst names ∈ before) ∧
        ∀ a b other, edge a b other ∈ before →
          a = src ∧ b = dst ∨ a = dst ∧ b = src → other = type

/-- Declarations of which each is admissible after those before it. -/
def InOrder (declarations : List Declaration) : Prop :=
  ∀ before declaration after, declarations = before ++ declaration :: after →
    Admissible before declaration

theorem inOrder_nil : InOrder [] := by
  intro before _ _ hsplit
  cases before <;> cases hsplit

theorem inOrder_append {declarations : List Declaration} {declaration : Declaration} :
    InOrder (declarations ++ [declaration]) ↔
      InOrder declarations ∧ Admissible declarations declaration := by
  constructor
  · intro h
    refine ⟨fun before next after hsplit => ?_, h declarations declaration [] rfl⟩
    exact h before next (after ++ [declaration]) (by rw [hsplit]; simp)
  · intro h before next after hsplit
    obtain ⟨hdeclarations, hlast⟩ := h
    rcases List.eq_nil_or_concat after with rfl | ⟨rest, last, rfl⟩
    · obtain ⟨rfl, hsame⟩ := List.append_inj' hsplit rfl
      cases hsame
      exact hlast
    · rw [List.concat_eq_append, ← List.cons_append, ← List.append_assoc] at hsplit
      exact hdeclarations before next rest (List.append_inj' hsplit rfl).1

end Declaration

/-! ## What a builder has taken -/

theorem mem_of_mapM_eq_some {α β : Type} {f : α → Option β} {list : List α} {outputs : List β}
    (h : list.mapM f = some outputs) {b : β} : b ∈ outputs ↔ ∃ a ∈ list, f a = some b := by
  induction list generalizing outputs with
  | nil =>
      cases h
      simp
  | cons a rest ih =>
      rw [List.mapM_cons] at h
      obtain ⟨first, hfirst, h⟩ := Option.bind_eq_some_iff.mp h
      obtain ⟨others, hothers, h⟩ := Option.bind_eq_some_iff.mp h
      cases h
      rw [List.mem_cons, ih hothers, List.exists_mem_cons_iff, hfirst, Option.some.injEq, eq_comm]

theorem some_of_mapM_eq_some {α β : Type} {f : α → Option β} {list : List α} {outputs : List β}
    (h : list.mapM f = some outputs) {a : α} (ha : a ∈ list) : ∃ b, f a = some b := by
  induction list generalizing outputs with
  | nil => cases ha
  | cons first rest ih =>
      rw [List.mapM_cons] at h
      obtain ⟨b, hb, h⟩ := Option.bind_eq_some_iff.mp h
      obtain ⟨others, hothers, -⟩ := Option.bind_eq_some_iff.mp h
      rcases List.mem_cons.mp ha with rfl | hrest
      · exact ⟨b, hb⟩
      · exact ih hothers hrest

namespace GraphBuilder

/-- A builder that holds what was declared: it records the additions that the declarations
stand for, and its vocabularies hold their names. -/
structure Took (b : GraphBuilder) (declarations : List Declaration) : Prop where
  consistent : b.Consistent
  records : ∃ additions,
    declarations.mapM (fun declaration => b.build.addition? declaration.call) = some additions ∧
      b.Records additions
  labelNames : ∀ name, b.labelNames.Knows name ↔
    ∃ id names, .node id names ∈ declarations ∧ name ∈ names
  edgeTypeNames : ∀ name, b.edgeTypeNames.Knows name ↔
    ∃ src dst, .edge src dst name ∈ declarations

theorem took_empty : Took {} [] where
  consistent := consistent_ofCalls []
  records := ⟨[], rfl, records_empty⟩
  labelNames := fun name =>
    iff_of_false (Vocabulary.not_knows_empty name) fun h => by
      obtain ⟨_, _, hmem, -⟩ := h
      cases hmem
  edgeTypeNames := fun name =>
    iff_of_false (Vocabulary.not_knows_empty name) fun h => by
      obtain ⟨_, _, hmem⟩ := h
      cases hmem

variable {b : GraphBuilder} {declarations : List Declaration}

theorem names_addNodeWithLabels (b : GraphBuilder) (external : ExternalId)
    (labels : List LabelId) :
    (b.addNodeWithLabels external labels).2.labelNames = b.labelNames ∧
      (b.addNodeWithLabels external labels).2.edgeTypeNames = b.edgeTypeNames := by
  unfold addNodeWithLabels
  dsimp only
  split
  · exact ⟨rfl, rfl⟩
  · split <;> exact ⟨rfl, rfl⟩

theorem names_addArc (b : GraphBuilder) (arc : Arc) (edgeType : EdgeTypeId) :
    (b.addArc arc edgeType).2.labelNames = b.labelNames ∧
      (b.addArc arc edgeType).2.edgeTypeNames = b.edgeTypeNames := by
  unfold addArc
  split <;> exact ⟨rfl, rfl⟩

theorem names_after {declaration : Declaration} (h : b.accepts declaration.call = true) :
    (b.after declaration.call).labelNames =
        (match declaration with
          | .node _ names => (b.labelNames.internAll names).2
          | .edge _ _ _ => b.labelNames) ∧
      (b.after declaration.call).edgeTypeNames =
        match declaration with
          | .node _ _ => b.edgeTypeNames
          | .edge _ _ type => (b.edgeTypeNames.intern type).2 := by
  cases declaration with
  | node id names => exact names_addNodeWithLabels _ _ _
  | edge src dst type =>
      replace h : (b.addEdge src dst type).1.isOk = true := h
      show (b.addEdge src dst type).2.labelNames = _ ∧ (b.addEdge src dst type).2.edgeTypeNames = _
      rw [addEdge] at h ⊢
      cases harc : b.resolveArc src dst with
      | error error =>
          rw [harc] at h
          cases h
      | ok arc => exact names_addArc _ _ _

theorem Took.after (h : b.Took declarations) {declaration : Declaration}
    (haccept : b.accepts declaration.call = true) :
    (b.after declaration.call).Took (declarations ++ [declaration]) where
  consistent := consistent_after h.consistent _
  records := by
    obtain ⟨additions, hadditions, hrecords⟩ := h.records
    have hstep := steps hrecords declaration.call
    obtain ⟨addition, hread, hadded⟩ := hstep.accepted haccept
    refine ⟨additions ++ [addition], ?_, hadded⟩
    have hold := Graph.mapM_eq_some_of_imp (fun _ _ => hstep.grows.addition?) hadditions
    rw [List.mapM_append, hold, List.mapM_cons, hread]
    rfl
  labelNames := by
    intro name
    rw [(names_after haccept).1]
    simp only [List.mem_append, List.mem_singleton]
    cases declaration with
    | node id names =>
        rw [Vocabulary.knows_internAll_iff, h.labelNames]
        constructor
        · rintro (⟨other, others, hmem, hname⟩ | hname)
          · exact ⟨other, others, Or.inl hmem, hname⟩
          · exact ⟨id, names, Or.inr rfl, hname⟩
        · rintro ⟨other, others, hmem | heq, hname⟩
          · exact Or.inl ⟨other, others, hmem, hname⟩
          · cases heq
            exact Or.inr hname
    | edge src dst type =>
        rw [h.labelNames]
        simp
  edgeTypeNames := by
    intro name
    rw [(names_after haccept).2]
    simp only [List.mem_append, List.mem_singleton]
    cases declaration with
    | node id names =>
        rw [h.edgeTypeNames]
        simp
    | edge src dst type =>
        rw [Vocabulary.knows_intern_iff, h.edgeTypeNames]
        constructor
        · rintro (⟨a, b, hmem⟩ | rfl)
          · exact ⟨a, b, Or.inl hmem⟩
          · exact ⟨src, dst, Or.inr rfl⟩
        · rintro ⟨a, b, hmem | heq⟩
          · exact Or.inl ⟨a, b, hmem⟩
          · cases heq
            exact Or.inr rfl

/-! ## Acceptance -/

/-- The additions that a builder records for what it took are those that the declarations
stand for. -/
theorem Took.mem_nodes {additions : List Addition}
    (h : declarations.mapM (fun declaration => b.build.addition? declaration.call) =
      some additions)
    {external : ExternalId} {labels : List LabelId} :
    (external, labels) ∈ Addition.nodes additions ↔
      ∃ names, .node external names ∈ declarations ∧
        names.mapM b.labelNames.id? = some labels := by
  rw [Addition.mem_nodes, mem_of_mapM_eq_some h]
  constructor
  · intro hmem
    obtain ⟨declaration, hmem, hread⟩ := hmem
    cases declaration with
    | node id names =>
        obtain ⟨labels, hlabels, heq⟩ := Option.bind_eq_some_iff.mp hread
        cases heq
        exact ⟨names, hmem, hlabels⟩
    | edge src dst type =>
        obtain ⟨_, -, hread⟩ := Option.bind_eq_some_iff.mp hread
        obtain ⟨_, -, hread⟩ := Option.bind_eq_some_iff.mp hread
        obtain ⟨_, -, heq⟩ := Option.bind_eq_some_iff.mp hread
        cases heq
  · intro hmem
    obtain ⟨names, hmem, hlabels⟩ := hmem
    exact ⟨_, hmem, Option.bind_eq_some_iff.mpr ⟨labels, hlabels, rfl⟩⟩

theorem Took.mem_edges {additions : List Addition}
    (h : declarations.mapM (fun declaration => b.build.addition? declaration.call) =
      some additions)
    {arc : Arc} {edgeType : EdgeTypeId} :
    (arc, edgeType) ∈ Addition.edges additions ↔
      ∃ src dst type, .edge src dst type ∈ declarations ∧ b.nodes.node? src = some arc.src ∧
        b.nodes.node? dst = some arc.dst ∧ b.edgeTypeNames.id? type = some edgeType := by
  rw [Addition.mem_edges, mem_of_mapM_eq_some h]
  constructor
  · intro hmem
    obtain ⟨declaration, hmem, hread⟩ := hmem
    cases declaration with
    | node id names =>
        obtain ⟨_, -, heq⟩ := Option.bind_eq_some_iff.mp hread
        cases heq
    | edge src dst type =>
        obtain ⟨first, hsrc, hread⟩ := Option.bind_eq_some_iff.mp hread
        obtain ⟨second, hdst, hread⟩ := Option.bind_eq_some_iff.mp hread
        obtain ⟨found, htype, heq⟩ := Option.bind_eq_some_iff.mp hread
        cases heq
        exact ⟨src, dst, type, hmem, hsrc, hdst, htype⟩
  · intro hmem
    obtain ⟨src, dst, type, hmem, hsrc, hdst, htype⟩ := hmem
    exact ⟨_, hmem, Option.bind_eq_some_iff.mpr ⟨_, hsrc, Option.bind_eq_some_iff.mpr ⟨_, hdst,
      Option.bind_eq_some_iff.mpr ⟨_, htype, rfl⟩⟩⟩⟩

theorem Took.exists_edge {additions : List Addition}
    (h : declarations.mapM (fun declaration => b.build.addition? declaration.call) =
      some additions)
    {src dst : ExternalId} {type : String} (hmem : .edge src dst type ∈ declarations) :
    ∃ arc edgeType, (arc, edgeType) ∈ Addition.edges additions ∧
      b.nodes.node? src = some arc.src ∧ b.nodes.node? dst = some arc.dst ∧
        b.edgeTypeNames.id? type = some edgeType := by
  obtain ⟨addition, hread⟩ := some_of_mapM_eq_some h hmem
  obtain ⟨first, hsrc, hread⟩ := Option.bind_eq_some_iff.mp hread
  obtain ⟨second, hdst, hread⟩ := Option.bind_eq_some_iff.mp hread
  obtain ⟨found, htype, -⟩ := Option.bind_eq_some_iff.mp hread
  exact ⟨⟨first, second⟩, found,
    (Took.mem_edges h).mpr ⟨src, dst, type, hmem, hsrc, hdst, htype⟩, hsrc, hdst, htype⟩

theorem Took.exists_node?_iff (h : b.Took declarations) {external : ExternalId} :
    (∃ node, b.nodes.node? external = some node) ↔
      ∃ names, .node external names ∈ declarations := by
  obtain ⟨additions, hadditions, hrecords⟩ := h.records
  have hok : (∃ node, b.nodes.node? external = some node) ↔
      ∃ node, b.build.node external = .ok node :=
    exists_congr fun node => (Graph.node_eq_ok_iff (g := b.build)).symm
  rw [hok, hrecords.node_isOk, List.mem_map]
  constructor
  · intro hmem
    obtain ⟨⟨_, labels⟩, hmem, rfl⟩ := hmem
    obtain ⟨names, hmem, -⟩ := (Took.mem_nodes hadditions).mp hmem
    exact ⟨names, hmem⟩
  · intro hmem
    obtain ⟨names, hmem⟩ := hmem
    obtain ⟨addition, hread⟩ := some_of_mapM_eq_some hadditions hmem
    obtain ⟨labels, hlabels, -⟩ := Option.bind_eq_some_iff.mp hread
    exact ⟨(external, labels), (Took.mem_nodes hadditions).mpr ⟨names, hmem, hlabels⟩, rfl⟩

end GraphBuilder

/-- Room for the ids of declarations: there are no more nodes, and no more names of labels or of
edge types, than an id can tell apart. -/
structure Declaration.Room (declarations : Set Declaration) : Prop where
  nodes : {id | ∃ names, .node id names ∈ declarations}.encard ≤ UInt32.size
  labels : {name | ∃ id names, .node id names ∈ declarations ∧ name ∈ names}.encard ≤ UInt32.size
  types : {type | ∃ src dst, .edge src dst type ∈ declarations}.encard ≤ UInt32.size

theorem Declaration.Room.mono {declarations others : Set Declaration} (h : Room others)
    (hsubset : declarations ⊆ others) : Room declarations where
  nodes := le_trans (Set.encard_le_encard fun _ hid => by
    obtain ⟨names, hmem⟩ := hid
    exact ⟨names, hsubset hmem⟩) h.nodes
  labels := le_trans (Set.encard_le_encard fun _ hname => by
    obtain ⟨id, names, hmem, hname⟩ := hname
    exact ⟨id, names, hsubset hmem, hname⟩) h.labels
  types := le_trans (Set.encard_le_encard fun _ htype => by
    obtain ⟨src, dst, hmem⟩ := htype
    exact ⟨src, dst, hsubset hmem⟩) h.types

namespace GraphBuilder

section

variable {b : GraphBuilder} {declarations : List Declaration} {known : Set Declaration}
  (hroom : Declaration.Room known)
  (hknown : ∀ declaration ∈ declarations, declaration ∈ known)
include hroom hknown

theorem Took.size_nodes_lt (h : b.Took declarations) {id : ExternalId} {names : List String}
    (hid : .node id names ∈ known) (hnew : b.nodes.node? id = none) :
    b.nodes.size < UInt32.size := by
  have hmem : id ∈ {id | ∃ names, .node id names ∈ known} := ⟨names, hid⟩
  have hsize : (b.nodes.size : ℕ∞) ≤ ({id | ∃ names, .node id names ∈ known} \ {id}).encard := by
    refine Numbering.size_le_encard fun other i hi => ⟨?_, ?_⟩
    · obtain ⟨names, hother⟩ := h.exists_node?_iff.mp ⟨_, Option.map_eq_some_iff.mpr ⟨i, hi, rfl⟩⟩
      exact ⟨names, hknown _ hother⟩
    · rintro rfl
      rw [NodeTable.node?, hi] at hnew
      cases hnew
  have hlt : ((b.nodes.size + 1 : Nat) : ℕ∞) ≤ UInt32.size := by
    rw [Nat.cast_add, Nat.cast_one]
    calc (b.nodes.size : ℕ∞) + 1
        ≤ ({id | ∃ names, .node id names ∈ known} \ {id}).encard + 1 := by gcongr
      _ = {id | ∃ names, .node id names ∈ known}.encard := Set.encard_sdiff_singleton_add_one hmem
      _ ≤ UInt32.size := hroom.nodes
  exact Nat.cast_le.mp hlt

theorem Took.size_edgeTypeNames_le (h : b.Took declarations) {src dst : ExternalId} {type : String}
    (htype : .edge src dst type ∈ known) :
    (b.edgeTypeNames.intern type).2.size ≤ UInt32.size := by
  refine Vocabulary.size_le_of_knows hroom.types fun name hname => ?_
  rcases Vocabulary.knows_intern_iff.mp hname with hold | rfl
  · obtain ⟨a, c, hmem⟩ := (h.edgeTypeNames name).mp hold
    exact ⟨a, c, hknown _ hmem⟩
  · exact ⟨src, dst, htype⟩

theorem Took.accepts_node_iff (h : b.Took declarations) {id : ExternalId} {names : List String}
    (hid : .node id names ∈ known) :
    b.accepts (.addNode id names) = true ↔
      Declaration.Admissible declarations (.node id names) := by
  have hnew : b.nodes.node? id = none ↔ ∀ others, .node id others ∉ declarations := by
    rw [← not_exists, ← h.exists_node?_iff, ← Option.isSome_iff_exists,
      Option.not_isSome_iff_eq_none]
  rw [accepts_addNode_iff, Declaration.Admissible, ← hnew]
  constructor
  · intro hconditions
    exact ⟨hconditions.1, hconditions.2.1⟩
  · intro hconditions
    exact ⟨hconditions.1, hconditions.2, h.size_nodes_lt hroom hknown hid hconditions.2⟩

theorem Took.accepts_edge_iff (h : b.Took declarations) {src dst : ExternalId} {type : String}
    (htype : .edge src dst type ∈ known) :
    b.accepts (.addEdge src dst type) = true ↔
      Declaration.Admissible declarations (.edge src dst type) := by
  obtain ⟨additions, hadditions, hrecords⟩ := h.records
  have hgrown := h.size_edgeTypeNames_le hroom hknown htype
  rw [accepts_addEdge_iff hrecords, Declaration.Admissible, ← h.exists_node?_iff,
    ← h.exists_node?_iff]
  constructor
  · intro hconditions
    obtain ⟨⟨first, second⟩, ⟨hsrc, hdst⟩, hsame⟩ := hconditions
    refine ⟨⟨_, hsrc⟩, ⟨_, hdst⟩, fun a c other hmem hends => ?_⟩
    obtain ⟨⟨start, stop⟩, old, hold, ha, hc, hid⟩ := Took.exists_edge hadditions hmem
    have harc : (⟨first, second⟩, old) ∈ Addition.edges additions ∨
        (⟨second, first⟩, old) ∈ Addition.edges additions := by
      rcases hends with ⟨rfl, rfl⟩ | ⟨rfl, rfl⟩
      · rw [hsrc] at ha
        rw [hdst] at hc
        cases ha
        cases hc
        exact Or.inl hold
      · rw [hdst] at ha
        rw [hsrc] at hc
        cases ha
        cases hc
        exact Or.inr hold
    have hintern := Vocabulary.id?_intern b.edgeTypeNames type
    rw [← hsame old harc] at hintern
    exact Vocabulary.eq_of_id? hgrown (Vocabulary.id?_intern_of_eq_some hid type) hintern
  · intro hconditions
    obtain ⟨⟨first, hsrc⟩, ⟨second, hdst⟩, hsame⟩ := hconditions
    have hnode : ∀ {external other : ExternalId} {node : NodeId},
        b.nodes.node? external = some node → b.nodes.node? other = some node → external = other :=
      NodeTable.eq_of_node? hrecords.nodes.room
    refine ⟨⟨first, second⟩, ⟨hsrc, hdst⟩, fun old hold => ?_⟩
    have hdeclared : ∃ a c other, .edge a c other ∈ declarations ∧
        (a = src ∧ c = dst ∨ a = dst ∧ c = src) ∧ b.edgeTypeNames.id? other = some old := by
      rcases hold with hforth | hback
      · obtain ⟨a, c, other, hmem, ha, hc, hid⟩ := (Took.mem_edges hadditions).mp hforth
        exact ⟨a, c, other, hmem, Or.inl ⟨hnode ha hsrc, hnode hc hdst⟩, hid⟩
      · obtain ⟨a, c, other, hmem, ha, hc, hid⟩ := (Took.mem_edges hadditions).mp hback
        exact ⟨a, c, other, hmem, Or.inr ⟨hnode ha hdst, hnode hc hsrc⟩, hid⟩
    obtain ⟨a, c, other, hmem, hends, hid⟩ := hdeclared
    obtain rfl := hsame a c other hmem hends
    rw [Vocabulary.intern_of_id? hid]

/-- A builder accepts the next declaration exactly when it is admissible after those that the
builder took. -/
theorem Took.accepts_iff (h : b.Took declarations) {declaration : Declaration}
    (hdeclaration : declaration ∈ known) :
    b.accepts declaration.call = true ↔ Declaration.Admissible declarations declaration := by
  cases declaration with
  | node id names => exact h.accepts_node_iff hroom hknown hdeclaration
  | edge src dst type => exact h.accepts_edge_iff hroom hknown hdeclaration

end

end GraphBuilder

/-! ## What a graph shows -/

/-- The ids of the declared nodes, in order. -/
def Declaration.ids (declarations : List Declaration) : List ExternalId :=
  declarations.filterMap fun
    | node id _ => some id
    | edge _ _ _ => none

/-- A graph in which the declarations are found again, under external ids and names, and nothing
else. -/
structure Graph.Shows (g : Graph) (declarations : List Declaration) : Prop where
  /-- The nodes are the declared ones, numbered in their order. -/
  nodes : (Network.nodesFrom 0 g.nodeCount).map g.externalId = Declaration.ids declarations
  node_eq_ok : ∀ id node, g.node id = .ok node ↔
    node.index < g.nodeCount ∧ g.externalId node = id
  node_isOk : ∀ id, (∃ node, g.node id = .ok node) ↔ ∃ names, .node id names ∈ declarations
  /-- Each label of a node has a name, and the names are those that the node was declared with. -/
  labels : ∀ id names node, .node id names ∈ declarations → g.node id = .ok node →
    (∀ label ∈ g.labels node, ∃ name ∈ names, g.labelNames.name? label = some name) ∧
      ∀ name ∈ names, ∃ label ∈ g.labels node, g.labelNames.name? label = some name
  /-- Each edge joins nodes that it was declared to join, under a name that it was declared with. -/
  edges : ∀ arc edgeType, (arc, edgeType) ∈ g.edges ↔
    ∃ src dst type, .edge src dst type ∈ declarations ∧ g.node src = .ok arc.src ∧
      g.node dst = .ok arc.dst ∧ g.edgeTypeNames.name? edgeType = some type
  declared : ∀ src dst type, .edge src dst type ∈ declarations →
    ∃ arc edgeType, (arc, edgeType) ∈ g.edges ∧ g.node src = .ok arc.src ∧
      g.node dst = .ok arc.dst ∧ g.edgeTypeNames.name? edgeType = some type
  neighbors : ∀ node next,
    (next ∈ g.neighbors node .outgoing ↔ ∃ edgeType, (⟨node, next⟩, edgeType) ∈ g.edges) ∧
      (next ∈ g.neighbors node .incoming ↔ ∃ edgeType, (⟨next, node⟩, edgeType) ∈ g.edges)
  edgeType_eq_ok : ∀ src dst edgeType, g.edgeType src dst = .ok edgeType ↔
    (⟨src, dst⟩, edgeType) ∈ g.edges ∨ (⟨dst, src⟩, edgeType) ∈ g.edges
  labelNames : ∀ name, g.labelNames.Knows name ↔
    ∃ id names, .node id names ∈ declarations ∧ name ∈ names
  edgeTypeNames : ∀ name, g.edgeTypeNames.Knows name ↔
    ∃ src dst, .edge src dst name ∈ declarations

namespace GraphBuilder

variable {b : GraphBuilder} {declarations : List Declaration}

theorem ids_of_mapM {additions : List Addition}
    (h : declarations.mapM (fun declaration => b.build.addition? declaration.call) =
      some additions) :
    (Addition.nodes additions).map Prod.fst = Declaration.ids declarations := by
  induction declarations generalizing additions with
  | nil =>
      cases h
      rfl
  | cons declaration rest ih =>
      rw [List.mapM_cons] at h
      obtain ⟨addition, hread, h⟩ := Option.bind_eq_some_iff.mp h
      obtain ⟨others, hothers, h⟩ := Option.bind_eq_some_iff.mp h
      cases h
      cases declaration with
      | node id names =>
          obtain ⟨labels, -, heq⟩ := Option.bind_eq_some_iff.mp hread
          cases heq
          exact congrArg (id :: ·) (ih hothers)
      | edge src dst type =>
          obtain ⟨_, -, hread⟩ := Option.bind_eq_some_iff.mp hread
          obtain ⟨_, -, hread⟩ := Option.bind_eq_some_iff.mp hread
          obtain ⟨_, -, heq⟩ := Option.bind_eq_some_iff.mp hread
          cases heq
          show (Addition.nodes others).map Prod.fst = Declaration.ids rest
          exact ih hothers

theorem map_externalId_nodesFrom {g : Graph} {additions : List Addition}
    (h : g.Freezes additions) :
    (Network.nodesFrom 0 g.nodeCount).map g.externalId =
      (Addition.nodes additions).map Prod.fst := by
  have hlength : (Network.nodesFrom 0 g.nodeCount).length = (Addition.nodes additions).length := by
    rw [Network.nodesFrom, List.length_map, List.length_range', Nat.sub_zero, h.nodeCount]
  refine List.ext_getElem (by simpa using hlength) fun i hi hi' => ?_
  rw [List.length_map] at hi hi'
  obtain ⟨node, hindex, hexternal, -⟩ := h.nodes i (Addition.nodes additions)[i].1
    (Addition.nodes additions)[i].2 (List.getElem?_eq_getElem hi')
  rw [List.getElem_map, List.getElem_map, ← hexternal, ← TypedId.ofIndex_index node, hindex]
  simp [Network.nodesFrom]

theorem Took.mem_labels {additions : List Addition}
    (h : declarations.mapM (fun declaration => b.build.addition? declaration.call) =
      some additions)
    (hrecords : b.Records additions) {id : ExternalId} {names : List String} {node : NodeId}
    (hdeclared : .node id names ∈ declarations) (hfound : b.build.node id = .ok node)
    {label : LabelId} :
    label ∈ b.build.labels node ↔ ∃ name ∈ names, b.labelNames.id? name = some label := by
  obtain ⟨_, hread⟩ := some_of_mapM_eq_some h hdeclared
  obtain ⟨labels, hlabels, -⟩ := Option.bind_eq_some_iff.mp hread
  obtain ⟨i, hi⟩ := List.mem_iff_getElem?.mp ((Took.mem_nodes h).mpr ⟨names, hdeclared, hlabels⟩)
  rw [← hrecords.index_ofIndex (List.getElem?_eq_some_iff.mp hi).1] at hi
  have hsame : b.build.node id = .ok (.ofIndex i) :=
    hrecords.node_eq_ok.mpr (by rw [hi]; rfl)
  rw [hfound] at hsame
  cases hsame
  rw [hrecords.labels hi, Rows.mem_ascending, mem_of_mapM_eq_some hlabels]
  rfl

/-- A builder that took declarations for which there is room builds a graph that shows them. -/
theorem Took.shows (h : b.Took declarations)
    (hroom : Declaration.Room {declaration | declaration ∈ declarations}) :
    b.build.Shows declarations := by
  obtain ⟨additions, hadditions, hrecords⟩ := h.records
  have hfreezes := hrecords.freezes h.consistent
  have hlabels : b.labelNames.size ≤ UInt32.size :=
    Vocabulary.size_le_of_knows hroom.labels fun name hname => (h.labelNames name).mp hname
  have htypes : b.edgeTypeNames.size ≤ UInt32.size :=
    Vocabulary.size_le_of_knows hroom.types fun name hname => (h.edgeTypeNames name).mp hname
  have hnode : ∀ {id : ExternalId} {node : NodeId},
      b.build.node id = .ok node ↔ b.nodes.node? id = some node := Graph.node_eq_ok_iff
  have hedges : ∀ arc edgeType, (arc, edgeType) ∈ b.build.edges ↔
      ∃ src dst type, .edge src dst type ∈ declarations ∧ b.build.node src = .ok arc.src ∧
        b.build.node dst = .ok arc.dst ∧ b.edgeTypeNames.name? edgeType = some type := by
    intro arc edgeType
    rw [hfreezes.mem_edges, Took.mem_edges hadditions]
    simp only [hnode, Vocabulary.name?_eq_some_iff htypes]
  constructor
  case nodes => rw [map_externalId_nodesFrom hfreezes, ids_of_mapM hadditions]
  case node_eq_ok => exact hfreezes.node_eq_ok
  case node_isOk => exact fun id => (exists_congr fun _ => hnode).trans h.exists_node?_iff
  case labels =>
    intro id names node hdeclared hfound
    have hmem : ∀ label, label ∈ b.build.labels node ↔
        ∃ name ∈ names, b.labelNames.name? label = some name := by
      intro label
      simp only [Took.mem_labels hadditions hrecords hdeclared hfound,
        Vocabulary.name?_eq_some_iff hlabels]
    refine ⟨fun label => (hmem label).mp, fun name hname => ?_⟩
    obtain ⟨label, hlabel⟩ := (h.labelNames name).mpr ⟨id, names, hdeclared, hname⟩
    rw [← Vocabulary.name?_eq_some_iff hlabels] at hlabel
    exact ⟨label, (hmem label).mpr ⟨name, hname, hlabel⟩, hlabel⟩
  case edges => exact hedges
  case declared =>
    intro src dst type hdeclared
    obtain ⟨arc, edgeType, hmem, hsrc, hdst, htype⟩ := Took.exists_edge hadditions hdeclared
    exact ⟨arc, edgeType, (hfreezes.mem_edges arc edgeType).mpr hmem, hnode.mpr hsrc,
      hnode.mpr hdst, (Vocabulary.name?_eq_some_iff htypes).mpr htype⟩
  case neighbors =>
    intro node next
    rw [(hfreezes.outgoing node).2, (hfreezes.incoming node).2]
    exact ⟨hfreezes.mem_arcs, hfreezes.mem_arcs⟩
  case edgeType_eq_ok =>
    intro src dst edgeType
    rw [hfreezes.edgeType_eq_ok, hfreezes.mem_edges, hfreezes.mem_edges]
  case labelNames => exact h.labelNames
  case edgeTypeNames => exact h.edgeTypeNames

end GraphBuilder

end Hetnet
