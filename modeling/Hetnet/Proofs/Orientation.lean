import Mathlib
import Hetnet.Proofs.RenamedGraphs
import Hetnet.Proofs.Views

/-!
# Which way the edges point

Two runs of calls that differ only in the ends of their edge calls being exchanged leave
builders that differ only in their tables of edge types (`GraphBuilder.Differ`). What a call
reads of such a table is the type between two nodes, found under an arc or under its reverse. So a
relation between two tables survives a whole run if the tables have the same types between
nodes and if adding an arc to one and the arc, or its reverse, to the other preserves it
(`EdgeTypes.Survives`).

There are two relations to which this is applied. Whatever is reversed, the types between nodes
stay the same (`EdgeTypes.SameBetween`), and nothing else of the edges can be seen without a
direction: neighbors on either side are listed in the order of the nodes and not in that of the
edges, and the links of a schema are those of adjacent nodes. If everything is reversed, then so is
the table (`EdgeTypes.Reversed`), and the graph has its two directions exchanged.
-/

namespace Hetnet

/-- The arc, or its reverse. -/
def Arc.turned (turn : Bool) (arc : Arc) : Arc := if turn then arc.reverse else arc

namespace BuilderCall

/-- The call with its ends exchanged, if it adds an edge. -/
def reverse : BuilderCall → BuilderCall
  | .addNode external names => .addNode external names
  | .addNodeWithLabels external labels => .addNodeWithLabels external labels
  | .addEdge src dst name => .addEdge dst src name
  | .addEdgeWithType src dst edgeType => .addEdgeWithType dst src edgeType

/-- The call, or its reverse. -/
def turned (turn : Bool) (call : BuilderCall) : BuilderCall := if turn then call.reverse else call

section

variable (turn : Bool)

theorem turned_addNode (external : ExternalId) (names : List String) :
    (addNode external names).turned turn = addNode external names := by
  cases turn <;> rfl

theorem turned_addNodeWithLabels (external : ExternalId) (labels : List LabelId) :
    (addNodeWithLabels external labels).turned turn = addNodeWithLabels external labels := by
  cases turn <;> rfl

theorem turned_addEdge (src dst : ExternalId) (name : String) :
    (addEdge src dst name).turned turn =
      addEdge (if turn then dst else src) (if turn then src else dst) name := by
  cases turn <;> rfl

theorem turned_addEdgeWithType (src dst : ExternalId) (edgeType : EdgeTypeId) :
    (addEdgeWithType src dst edgeType).turned turn =
      addEdgeWithType (if turn then dst else src) (if turn then src else dst) edgeType := by
  cases turn <;> rfl

end

end BuilderCall

/-! ## Tables of edge types -/

/-- The types of the arcs of a graph. -/
abbrev EdgeTypes := Std.ExtTreeMap Arc EdgeTypeId

namespace EdgeTypes

variable {t u : EdgeTypes} {arc other : Arc} {edgeType : EdgeTypeId}

/-- The type of an arc or of its reverse. -/
def between? (t : EdgeTypes) (arc : Arc) : Option EdgeTypeId := (t[arc]?).or t[arc.reverse]?

/-- A table in which an arc and its reverse do not have two types. -/
def OneType (t : EdgeTypes) : Prop := ∀ arc : Arc, between? t arc.reverse = between? t arc

/-- The arc that is added and its reverse get the type, and all other arcs keep theirs. -/
theorem between?_insert (h : OneType t) (hfits : (between? t arc).all (· = edgeType) = true) :
    between? (t.insert arc edgeType) other =
      if other = arc ∨ other = arc.reverse then some edgeType else between? t other := by
  rw [between?, GraphBuilder.getElem?_insert_arc, GraphBuilder.getElem?_insert_arc]
  by_cases hsame : arc = other
  · rw [if_pos hsame, if_pos (Or.inl hsame.symm), Option.some_or]
  · rw [if_neg hsame]
    by_cases hback : arc = other.reverse
    · have hother : other = arc.reverse := congrArg Arc.reverse hback.symm
      rw [if_pos hback, if_pos (Or.inr hother)]
      -- The reverse arc may have a type already, but then it is the same one.
      rw [hback, h other, between?] at hfits
      cases hold : t[other]? with
      | none => rfl
      | some old =>
          rw [hold, Option.some_or, Option.all_some, decide_eq_true_iff] at hfits
          rw [hfits, Option.some_or]
    · rw [if_neg hback, if_neg, between?]
      rintro (rfl | rfl)
      · exact hsame rfl
      · exact hback rfl

/-- A relation between two tables that gives them the same types between nodes and survives that an
arc is added to one of them and the turned arc to the other. -/
structure Survives (R : EdgeTypes → EdgeTypes → Prop) (turn : Bool) : Prop where
  between : ∀ {t u}, R t u → ∀ arc, between? u (arc.turned turn) = between? t arc
  insert : ∀ {t u}, R t u → ∀ arc edgeType, (between? t arc).all (· = edgeType) = true →
    R (t.insert arc edgeType) (u.insert (arc.turned turn) edgeType)

/-- Tables with the same types between nodes, and one type between any two of them. -/
structure SameBetween (t u : EdgeTypes) : Prop where
  oneType : OneType t
  between : ∀ arc, between? u arc = between? t arc

/-- Tables of which each holds the arcs of the other reversed. -/
def Reversed (t u : EdgeTypes) : Prop := ∀ arc : Arc, u[arc.reverse]? = t[arc]?

theorem SameBetween.between_turned (h : SameBetween t u) (turn : Bool) (arc : Arc) :
    between? u (arc.turned turn) = between? t arc := by
  cases turn with
  | false => exact h.between arc
  | true => exact (h.between arc.reverse).trans (h.oneType arc)

theorem oneType_insert (h : OneType t) (hfits : (between? t arc).all (· = edgeType) = true) :
    OneType (t.insert arc edgeType) := by
  intro other
  rw [between?_insert h hfits, between?_insert h hfits, h other]
  refine if_congr ?_ rfl rfl
  have hreverse : other.reverse = arc ↔ other = arc.reverse :=
    ⟨congrArg Arc.reverse, congrArg Arc.reverse⟩
  have hreverses : other.reverse = arc.reverse ↔ other = arc :=
    ⟨congrArg Arc.reverse, congrArg Arc.reverse⟩
  rw [hreverse, hreverses, or_comm]

theorem survives_sameBetween (turn : Bool) : Survives SameBetween turn := by
  refine ⟨fun h => h.between_turned turn, fun {t u} h arc edgeType hfits => ?_⟩
  refine ⟨oneType_insert h.oneType hfits, fun other => ?_⟩
  have hone : OneType u := fun other => by rw [h.between, h.between, h.oneType]
  have hfits' : (between? u (arc.turned turn)).all (· = edgeType) = true := by
    rw [h.between_turned]
    exact hfits
  rw [between?_insert hone hfits', between?_insert h.oneType hfits, h.between]
  refine if_congr ?_ rfl rfl
  cases turn with
  | false => exact Iff.rfl
  | true => exact or_comm

theorem survives_reversed : Survives Reversed true := by
  refine ⟨fun {t u} h arc => ?_, fun {t u} h arc edgeType _ other => ?_⟩
  · have hback : u[arc]? = t[arc.reverse]? := h arc.reverse
    show (u[arc.reverse]?).or u[arc]? = (t[arc]?).or t[arc.reverse]?
    rw [h arc, hback]
  · have hreverses : arc.reverse = other.reverse ↔ arc = other :=
      ⟨congrArg Arc.reverse, congrArg Arc.reverse⟩
    show (u.insert arc.reverse edgeType)[other.reverse]? = _
    rw [GraphBuilder.getElem?_insert_arc, GraphBuilder.getElem?_insert_arc, h other]
    exact if_congr hreverses rfl rfl

end EdgeTypes

/-! ## Runs that differ in their edge calls -/

namespace GraphBuilder

variable {R : EdgeTypes → EdgeTypes → Prop} {turn : Bool} {b c : GraphBuilder}

/-- The calls with those at the chosen positions reversed. -/
def reorient (chosen : Nat → Bool) (calls : List BuilderCall) : List BuilderCall :=
  calls.mapIdx fun i call => call.turned (chosen i)

/-- Two builders that are the same except for their tables of edge types, and these are related. -/
structure Differ (R : EdgeTypes → EdgeTypes → Prop) (b c : GraphBuilder) : Prop where
  rest : c = { b with edgeTypes := c.edgeTypes }
  tables : R b.edgeTypes c.edgeTypes

theorem Differ.addNodeWithLabels (h : Differ R b c) (external : ExternalId)
    (labels : List LabelId) :
    (c.addNodeWithLabels external labels).1 = (b.addNodeWithLabels external labels).1 ∧
      Differ R (b.addNodeWithLabels external labels).2
        (c.addNodeWithLabels external labels).2 := by
  obtain ⟨u, rfl⟩ : ∃ u, c = { b with edgeTypes := u } := ⟨_, h.rest⟩
  unfold GraphBuilder.addNodeWithLabels
  dsimp only
  split
  · exact ⟨rfl, h⟩
  · split
    · exact ⟨rfl, h⟩
    · exact ⟨rfl, rfl, h.tables⟩

theorem Differ.addArc (hR : EdgeTypes.Survives R turn) (h : Differ R b c) (arc : Arc)
    (edgeType : EdgeTypeId) :
    (c.addArc (arc.turned turn) edgeType).1.isOk = (b.addArc arc edgeType).1.isOk ∧
      Differ R (b.addArc arc edgeType).2 (c.addArc (arc.turned turn) edgeType).2 := by
  have hexisting : c.existing? (arc.turned turn) = b.existing? arc := hR.between h.tables arc
  obtain ⟨u, rfl⟩ : ∃ u, c = { b with edgeTypes := u } := ⟨_, h.rest⟩
  unfold GraphBuilder.addArc
  rw [hexisting]
  split
  · next hfits => exact ⟨rfl, rfl, hR.insert h.tables arc edgeType hfits⟩
  · exact ⟨rfl, h⟩

/-- Adds an edge after the names of edge types have grown, which an edge that is given by its type
leaves as they are. -/
def addTyped (b : GraphBuilder) (src dst : ExternalId) (names : Vocabulary .edgeType)
    (edgeType : EdgeTypeId) : Except Error Unit × GraphBuilder :=
  match b.resolveArc src dst with
  | .error error => (.error error, b)
  | .ok arc => addArc { b with edgeTypeNames := names } arc edgeType

theorem addEdge_eq_addTyped (src dst : ExternalId) (name : String) :
    b.addEdge src dst name =
      b.addTyped src dst (b.edgeTypeNames.intern name).2 (b.edgeTypeNames.intern name).1 :=
  rfl

theorem addEdgeWithType_eq_addTyped (src dst : ExternalId) (edgeType : EdgeTypeId) :
    b.addEdgeWithType src dst edgeType = b.addTyped src dst b.edgeTypeNames edgeType :=
  rfl

theorem resolveArc_reverse (src dst : ExternalId) :
    (b.resolveArc dst src).toOption = (b.resolveArc src dst).toOption.map Arc.reverse := by
  rw [resolveArc, resolveArc]
  cases b.resolve src <;> cases b.resolve dst <;> rfl

/-- Edges between the same nodes are accepted or refused alike. -/
theorem Differ.addTyped (hR : EdgeTypes.Survives R turn) (h : Differ R b c)
    {src dst src' dst' : ExternalId} (hends : (b.resolveArc src' dst').toOption =
      (b.resolveArc src dst).toOption.map (Arc.turned turn))
    (names : Vocabulary .edgeType) (edgeType : EdgeTypeId) :
    (c.addTyped src' dst' names edgeType).1.isOk = (b.addTyped src dst names edgeType).1.isOk ∧
      Differ R (b.addTyped src dst names edgeType).2 (c.addTyped src' dst' names edgeType).2 := by
  have hsame : c.resolveArc src' dst' = b.resolveArc src' dst' := by
    rw [h.rest]
    rfl
  rw [GraphBuilder.addTyped, GraphBuilder.addTyped, hsame]
  cases harc : b.resolveArc src dst with
  | error error =>
      cases harc' : b.resolveArc src' dst' with
      | error error' => exact ⟨rfl, h⟩
      | ok arc' =>
          rw [harc, harc'] at hends
          cases hends
  | ok arc =>
      cases harc' : b.resolveArc src' dst' with
      | error error' =>
          rw [harc, harc'] at hends
          cases hends
      | ok arc' =>
          rw [harc, harc'] at hends
          obtain rfl : arc' = arc.turned turn := Option.some.inj hends
          have hnamed : Differ R { b with edgeTypeNames := names }
              { c with edgeTypeNames := names } :=
            ⟨by rw [h.rest], h.tables⟩
          exact hnamed.addArc hR arc edgeType

theorem resolveArc_turned (turn : Bool) (src dst : ExternalId) :
    (b.resolveArc (if turn then dst else src) (if turn then src else dst)).toOption =
      (b.resolveArc src dst).toOption.map (Arc.turned turn) := by
  cases turn with
  | false => exact (congrFun Option.map_id _).symm
  | true => exact resolveArc_reverse src dst

/-- A call and the turned call are accepted or refused alike and leave builders that differ as
before. -/
theorem Differ.step (hR : EdgeTypes.Survives R turn) (h : Differ R b c) (call : BuilderCall) :
    c.accepts (call.turned turn) = b.accepts call ∧
      Differ R (b.after call) (c.after (call.turned turn)) := by
  obtain ⟨u, rfl⟩ : ∃ u, c = { b with edgeTypes := u } := ⟨_, h.rest⟩
  cases call with
  | addNode external names =>
      have hnamed : Differ R { b with labelNames := (b.labelNames.internAll names).2 }
          { b with edgeTypes := u, labelNames := (b.labelNames.internAll names).2 } :=
        ⟨rfl, h.tables⟩
      obtain ⟨hanswer, hafter⟩ :=
        hnamed.addNodeWithLabels external (b.labelNames.internAll names).1
      rw [BuilderCall.turned_addNode]
      exact ⟨congrArg Except.isOk hanswer, hafter⟩
  | addNodeWithLabels external labels =>
      obtain ⟨hanswer, hafter⟩ := h.addNodeWithLabels external labels
      rw [BuilderCall.turned_addNodeWithLabels]
      exact ⟨congrArg Except.isOk hanswer, hafter⟩
  | addEdge src dst name =>
      rw [BuilderCall.turned_addEdge, accepts, accepts, after, after, addEdge_eq_addTyped,
        addEdge_eq_addTyped]
      exact h.addTyped hR (resolveArc_turned turn src dst) _ _
  | addEdgeWithType src dst edgeType =>
      rw [BuilderCall.turned_addEdgeWithType, accepts, accepts, after, after,
        addEdgeWithType_eq_addTyped, addEdgeWithType_eq_addTyped]
      exact h.addTyped hR (resolveArc_turned turn src dst) _ _

theorem reorient_cons (chosen : Nat → Bool) (call : BuilderCall) (rest : List BuilderCall) :
    reorient chosen (call :: rest) =
      call.turned (chosen 0) :: reorient (fun i => chosen (i + 1)) rest :=
  List.mapIdx_cons

/-- For each call of a run, whether it is accepted. -/
def verdicts (b : GraphBuilder) : List BuilderCall → List Bool
  | [] => []
  | call :: rest => b.accepts call :: (b.after call).verdicts rest

theorem Differ.run {chosen : Nat → Bool} (hR : ∀ i, EdgeTypes.Survives R (chosen i))
    (h : Differ R b c) (calls : List BuilderCall) :
    c.verdicts (reorient chosen calls) = b.verdicts calls ∧
      Differ R (calls.foldl after b) ((reorient chosen calls).foldl after c) := by
  induction calls generalizing b c chosen with
  | nil => exact ⟨rfl, h⟩
  | cons call rest ih =>
      obtain ⟨haccepts, hafter⟩ := h.step (hR 0) call
      obtain ⟨hverdicts, hrun⟩ := ih (fun i => hR (i + 1)) hafter
      rw [reorient_cons, verdicts, verdicts, haccepts, hverdicts]
      exact ⟨rfl, hrun⟩

/-- Whatever is reversed, the same calls are accepted and the types between nodes stay the same. -/
theorem differ_reorient (chosen : Nat → Bool) (calls : List BuilderCall) :
    verdicts {} (reorient chosen calls) = verdicts {} calls ∧
      Differ EdgeTypes.SameBetween (ofCalls calls) (ofCalls (reorient chosen calls)) := by
  have hempty : Differ EdgeTypes.SameBetween {} {} := ⟨rfl, fun arc => rfl, fun arc => rfl⟩
  exact hempty.run (fun i => EdgeTypes.survives_sameBetween (chosen i)) calls

/-- If everything is reversed, then so is every arc. -/
theorem differ_reverse (calls : List BuilderCall) :
    Differ EdgeTypes.Reversed (ofCalls calls) (ofCalls (reorient (fun _ => true) calls)) := by
  have hempty : Differ EdgeTypes.Reversed {} {} := ⟨rfl, fun arc => rfl⟩
  exact (hempty.run (fun _ => EdgeTypes.survives_reversed) calls).2

/-! ## Graphs -/

theorem neighbors_ofArcs_congr {count : Nat} {arcs others : List Arc} {node : NodeId}
    (h : ∀ next, ⟨node, next⟩ ∈ others ↔ ⟨node, next⟩ ∈ arcs) :
    (Adjacency.ofArcs count others).neighbors node = (Adjacency.ofArcs count arcs).neighbors node :=
  List.Pairwise.eq_of_mem_iff (increasing_ofArcs count others node)
    (increasing_ofArcs count arcs node) fun next => by
      rw [mem_neighbors_ofArcs, mem_neighbors_ofArcs, h]

/-- Two nodes are adjacent if they have a type between them. -/
theorem mem_arcs_both {node next : NodeId} :
    Arc.mk node next ∈ b.arcs ++ b.arcs.map Arc.reverse ↔
      (EdgeTypes.between? b.edgeTypes ⟨node, next⟩).isSome = true := by
  rw [List.mem_append, mem_arcs_reverse]
  exact isSome_existing?_iff.symm

theorem Differ.nodeCount (h : Differ R b c) : c.nodeCount = b.nodeCount := by
  rw [h.rest]
  rfl

theorem Differ.neighbors_both (h : Differ EdgeTypes.SameBetween b c) (node : NodeId) :
    c.build.neighbors node .both = b.build.neighbors node .both := by
  show (Adjacency.ofArcs c.nodeCount _).neighbors node =
    (Adjacency.ofArcs b.nodeCount _).neighbors node
  rw [h.nodeCount]
  refine neighbors_ofArcs_congr fun next => ?_
  rw [mem_arcs_both, mem_arcs_both, h.tables.between]

theorem Differ.edgeType (h : Differ EdgeTypes.SameBetween b c) (src dst : NodeId) :
    c.build.edgeType src dst = b.build.edgeType src dst := by
  have hbetween : (c.build.edgeTypes[Arc.mk src dst]?).or c.build.edgeTypes[Arc.mk dst src]? =
      (b.build.edgeTypes[Arc.mk src dst]?).or b.build.edgeTypes[Arc.mk dst src]? :=
    h.tables.between ⟨src, dst⟩
  rw [Graph.edgeType, Graph.edgeType, hbetween]

theorem mem_arcs_of_reversed (h : EdgeTypes.Reversed b.edgeTypes c.edgeTypes) (arc : Arc) :
    arc.reverse ∈ c.arcs ↔ arc ∈ b.arcs := by
  rw [mem_arcs, mem_arcs, Std.ExtTreeMap.mem_iff_isSome_getElem?, h arc,
    ← Std.ExtTreeMap.mem_iff_isSome_getElem?]

theorem Differ.neighbors_outgoing (h : Differ EdgeTypes.Reversed b c) (node : NodeId) :
    c.build.neighbors node .outgoing = b.build.neighbors node .incoming := by
  show (Adjacency.ofArcs c.nodeCount c.arcs).neighbors node =
    (Adjacency.ofArcs b.nodeCount (b.arcs.map Arc.reverse)).neighbors node
  rw [h.nodeCount]
  refine neighbors_ofArcs_congr fun next => ?_
  rw [mem_arcs_reverse]
  exact mem_arcs_of_reversed h.tables ⟨next, node⟩

theorem Differ.neighbors_incoming (h : Differ EdgeTypes.Reversed b c) (node : NodeId) :
    c.build.neighbors node .incoming = b.build.neighbors node .outgoing := by
  show (Adjacency.ofArcs c.nodeCount (c.arcs.map Arc.reverse)).neighbors node =
    (Adjacency.ofArcs b.nodeCount b.arcs).neighbors node
  rw [h.nodeCount]
  refine neighbors_ofArcs_congr fun next => ?_
  rw [mem_arcs_reverse]
  exact mem_arcs_of_reversed h.tables ⟨node, next⟩

/-- Graphs with the same types between nodes have the same view in two directions in which they
have the same neighbors. -/
theorem Differ.along_eq (h : Differ EdgeTypes.SameBetween b c) {direction direction' : Direction}
    (hneighbors : ∀ node, c.build.neighbors node direction' = b.build.neighbors node direction) :
    c.build.network.along direction' = b.build.network.along direction := by
  have htypes : c.build.edgeType = b.build.edgeType := funext fun src => funext (h.edgeType src)
  have hlists : (fun node => c.build.neighbors node direction') =
      fun node => b.build.neighbors node direction := funext hneighbors
  have hrest : c.build.network.along direction' =
      { b.build.network with
        neighbors := fun node _ => (fun node => c.build.neighbors node direction') node
        edgeType := fun src dst => liftM (c.build.edgeType src dst) } := by
    rw [h.rest]
    rfl
  rw [hrest, htypes, hlists]
  rfl

/-! ## Schemas -/

/-- The links of a built graph are those of adjacent nodes. -/
theorem Records.exists_linksFrom_iff_edgeType {additions : List Addition} (h : b.Records additions)
    (hends : b.Consistent) {a l : LabelId} {edgeType : EdgeTypeId} :
    (∃ node, b.build.network.contains node = true ∧
        b.build.network.LinksFrom node a l edgeType) ↔
      ∃ src dst, b.build.edgeType src dst = .ok edgeType ∧
        a ∈ b.build.labels src ∧ l ∈ b.build.labels dst := by
  simp only [h.exists_linksFrom_iff hends, h.edgeType_eq_ok_iff hends]
  constructor
  · intro hlink
    obtain ⟨src, dst, hedge, hforth | hback⟩ := hlink
    · exact ⟨src, dst, Or.inl hedge, hforth⟩
    · exact ⟨dst, src, Or.inr hedge, hback.2, hback.1⟩
  · intro hlink
    obtain ⟨src, dst, hforth | hback, hlabels⟩ := hlink
    · exact ⟨src, dst, hforth, Or.inl hlabels⟩
    · exact ⟨dst, src, hback, Or.inr ⟨hlabels.2, hlabels.1⟩⟩

theorem Differ.extract_eq {calls others : List BuilderCall}
    (h : Differ EdgeTypes.SameBetween (ofCalls calls) (ofCalls others)) (parts : Nat) :
    Schema.extract (ofCalls others).build.network parts =
        Schema.extract (ofCalls calls).build.network parts ∧
      (1 ≤ parts → reserve parts Block.bytes = .ok () →
        reserve (ofCalls calls).build.labelCount Schema.rowBytes = .ok () → ∃ s, ∀ reports,
          Schema.extract (ofCalls others).build.network parts reports = .ok s ∧
            Schema.extract (ofCalls calls).build.network parts reports = .ok s) := by
  by_cases hparts : parts = 0
  · refine ⟨?_, fun hpos => absurd hparts (Nat.one_le_iff_ne_zero.mp hpos)⟩
    rw [Schema.extract, Schema.extract, if_pos hparts, if_pos hparts]
    rfl
  · cases hblocks : reserve parts Block.bytes with
    | error failure =>
        refine ⟨?_, fun _ hfits => by cases hfits⟩
        rw [Schema.extract, Schema.extract, if_neg hparts, if_neg hparts, hblocks]
        rfl
    | ok _ =>
        obtain ⟨additions, -, hb⟩ := records_ofCalls calls
        obtain ⟨additions', -, hc⟩ := records_ofCalls others
        have hcount : (ofCalls others).build.labelCount = (ofCalls calls).build.labelCount := by
          rw [h.rest]
          rfl
        have hlabels : ∀ node, (ofCalls others).build.labels node =
            (ofCalls calls).build.labels node := by
          intro node
          rw [h.rest]
          rfl
        have hrows := congrArg (reserve · Schema.rowBytes) hcount
        refine And.imp_right (fun hok _ _ hroom => hok (hrows.trans hroom))
          (Schema.extract_eq_of_links (readable_build _ _) (readable_build _ _)
            (labelsBounded_build hc) (labelsBounded_build hb) hcount (fun a l edgeType => ?_)
            hparts hparts hblocks hblocks)
        rw [hc.exists_linksFrom_iff_edgeType (consistent_ofCalls others),
          hb.exists_linksFrom_iff_edgeType (consistent_ofCalls calls)]
        simp only [h.edgeType, hlabels]

end GraphBuilder

/-! ## What cannot be seen -/

/-- Graphs that look the same to whoever does not ask which way an edge points. -/
structure Graph.SameUndirected (g h : Graph) : Prop where
  neighbors : ∀ node, h.neighbors node .both = g.neighbors node .both
  edgeType : ∀ src dst, h.edgeType src dst = g.edgeType src dst
  schemas : ∀ parts, Schema.extract h.network parts = Schema.extract g.network parts ∧
    (1 ≤ parts → reserve parts Block.bytes = .ok () →
      reserve g.labelCount Schema.rowBytes = .ok () → ∃ s, ∀ reports,
        Schema.extract h.network parts reports = .ok s ∧
          Schema.extract g.network parts reports = .ok s)
  answers : ∀ seed sink reports, Enumerator.AnswersLike
    { network := h.network, direction := .both, seed, sink, reports }
    { network := g.network, direction := .both, seed, sink, reports }

/-- Graphs of which each has the two directions of the other exchanged. -/
structure Graph.Opposite (g h : Graph) : Prop where
  outgoing : ∀ node, h.neighbors node .outgoing = g.neighbors node .incoming
  incoming : ∀ node, h.neighbors node .incoming = g.neighbors node .outgoing
  answersAlong : ∀ seed sink reports, Enumerator.AnswersLike
    { network := h.network, direction := .outgoing, seed, sink, reports }
    { network := g.network, direction := .incoming, seed, sink, reports }
  answersAgainst : ∀ seed sink reports, Enumerator.AnswersLike
    { network := h.network, direction := .incoming, seed, sink, reports }
    { network := g.network, direction := .outgoing, seed, sink, reports }

namespace GraphBuilder

theorem sameUndirected_reorient (chosen : Nat → Bool) (calls : List BuilderCall) :
    Graph.SameUndirected (ofCalls calls).build (ofCalls (reorient chosen calls)).build := by
  have h := (differ_reorient chosen calls).2
  constructor
  case neighbors => exact h.neighbors_both
  case edgeType => exact h.edgeType
  case schemas => exact h.extract_eq
  case answers =>
    intro seed sink reports
    refine Enumerator.answersLike_of_along ?_
    rw [Enumerator.along, Enumerator.along, h.along_eq h.neighbors_both]

theorem reorient_all (calls : List BuilderCall) :
    reorient (fun _ => true) calls = calls.map BuilderCall.reverse := by
  induction calls with
  | nil => rfl
  | cons call rest ih =>
      rw [reorient_cons, List.map_cons, ih]
      rfl

theorem opposite_reverse (calls : List BuilderCall) :
    Graph.Opposite (ofCalls calls).build (ofCalls (calls.map BuilderCall.reverse)).build := by
  rw [← reorient_all]
  have h := (differ_reorient (fun _ => true) calls).2
  have hback := differ_reverse calls
  constructor
  case outgoing => exact hback.neighbors_outgoing
  case incoming => exact hback.neighbors_incoming
  case answersAlong =>
    intro seed sink reports
    refine Enumerator.answersLike_of_along ?_
    rw [Enumerator.along, Enumerator.along, h.along_eq hback.neighbors_outgoing]
  case answersAgainst =>
    intro seed sink reports
    refine Enumerator.answersLike_of_along ?_
    rw [Enumerator.along, Enumerator.along, h.along_eq hback.neighbors_incoming]

/-- Which way the edges point cannot be seen without a direction. If any calls of a run are
reversed, the same calls are accepted, and the graph looks the same to whoever does not ask; if
all of them are, its two directions are exchanged. -/
theorem orientation_invisible (calls : List BuilderCall) :
    (∀ chosen : Nat → Bool, verdicts {} (reorient chosen calls) = verdicts {} calls ∧
      Graph.SameUndirected (ofCalls calls).build (ofCalls (reorient chosen calls)).build) ∧
    Graph.Opposite (ofCalls calls).build (ofCalls (calls.map BuilderCall.reverse)).build :=
  ⟨fun chosen => ⟨(differ_reorient chosen calls).1, sameUndirected_reorient chosen calls⟩,
    opposite_reverse calls⟩

end GraphBuilder

end Hetnet
