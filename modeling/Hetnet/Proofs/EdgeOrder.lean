import Mathlib
import Hetnet.Proofs.Acceptance
import Hetnet.Proofs.Orientation

/-!
# The order in which edges are added

Between two nodes the first edge settles the type, whichever way it points: later edges
between them are accepted if they have that type and refused if they do not. What is settled
for a pair of nodes after some edges is what was settled before, or else the type of the first of
these edges that joins the pair (`existing?_addArc` is the step). So the answers to a list of
edges can be read off the list, and if its edges do not disagree, all of them are accepted.

The table of types that such a list leaves behind is then told by its members alone, and so is
everything that a graph is built from. A builder may also keep its arcs in the order in which
they came and sort them when it builds (`buildFrom`): rows are sorted and hold nothing twice, so
the order makes no difference there either.
-/

namespace Hetnet

theorem Adjacency.ofArcs_congr {count : Nat} {arcs others : List Arc}
    (h : ∀ arc, arc ∈ others ↔ arc ∈ arcs) : ofArcs count others = ofArcs count arcs :=
  Rows.ofPairs_congr fun pair _ => by simp only [List.mem_map, h]

namespace GraphBuilder

variable {b : GraphBuilder}

/-! ## Arcs in the order in which they came -/

/-- The graph whose tables are made from a list of arcs. -/
def buildFrom (b : GraphBuilder) (log : List Arc) : Graph :=
  { b.build with
    outgoing := .ofArcs b.nodeCount log
    incoming := .ofArcs b.nodeCount (log.map Arc.reverse)
    undirected := .ofArcs b.nodeCount (log.flatMap fun arc => [arc, arc.reverse]) }

theorem buildFrom_eq_build {log : List Arc} (h : ∀ arc, arc ∈ log ↔ arc ∈ b.arcs) :
    b.buildFrom log = b.build := by
  have hout : Adjacency.ofArcs b.nodeCount log = .ofArcs b.nodeCount b.arcs :=
    Adjacency.ofArcs_congr h
  have hin : Adjacency.ofArcs b.nodeCount (log.map Arc.reverse) =
      .ofArcs b.nodeCount (b.arcs.map Arc.reverse) :=
    Adjacency.ofArcs_congr fun arc => by simp only [List.mem_map, h]
  have hboth : Adjacency.ofArcs b.nodeCount (log.flatMap fun arc => [arc, arc.reverse]) =
      .ofArcs b.nodeCount (b.arcs ++ b.arcs.map Arc.reverse) := by
    refine Adjacency.ofArcs_congr fun arc => ?_
    simp only [List.mem_flatMap, List.mem_cons, List.not_mem_nil, or_false, List.mem_append,
      List.mem_map, h]
    grind
  rw [buildFrom, hout, hin, hboth]
  rfl

/-- The arcs that the calls of a run add, in the order in which they are first added. -/
def newArcs (b : GraphBuilder) : List BuilderCall → List Arc
  | [] => []
  | call :: rest =>
      ((b.after call).arcs.filter fun arc => arc ∉ b.arcs) ++ (b.after call).newArcs rest

theorem edgeTypes_addNodeWithLabels (external : ExternalId) (labels : List LabelId) :
    (b.addNodeWithLabels external labels).2.edgeTypes = b.edgeTypes := by
  unfold addNodeWithLabels
  dsimp only
  split
  · rfl
  · split <;> rfl

theorem mem_arcs_addArc {arc other : Arc} (h : other ∈ b.arcs) (edgeType : EdgeTypeId) :
    other ∈ (b.addArc arc edgeType).2.arcs := by
  rw [addArc]
  split
  · exact mem_arcs.mpr (Std.ExtTreeMap.mem_insert.mpr (Or.inr (mem_arcs.mp h)))
  · exact h

theorem mem_arcs_after {arc : Arc} (h : arc ∈ b.arcs) (call : BuilderCall) :
    arc ∈ (b.after call).arcs := by
  cases call with
  | addNode external names =>
      rw [mem_arcs, after, addNode, edgeTypes_addNodeWithLabels]
      exact mem_arcs.mp h
  | addNodeWithLabels external labels =>
      rw [mem_arcs, after, edgeTypes_addNodeWithLabels]
      exact mem_arcs.mp h
  | addEdge src dst name =>
      rw [after, addEdge]
      split
      · exact h
      · have hnamed : arc ∈ arcs { b with edgeTypeNames := (b.edgeTypeNames.intern name).2 } := h
        exact mem_arcs_addArc hnamed _
  | addEdgeWithType src dst edgeType =>
      rw [after, addEdgeWithType]
      split
      · exact h
      · exact mem_arcs_addArc h edgeType

theorem mem_arcs_foldl {arc : Arc} (calls : List BuilderCall) :
    arc ∈ (calls.foldl after b).arcs ↔ arc ∈ b.arcs ∨ arc ∈ b.newArcs calls := by
  induction calls generalizing b with
  | nil => simp [newArcs]
  | cons call rest ih =>
      rw [List.foldl_cons, ih, newArcs, List.mem_append, List.mem_filter, decide_eq_true_iff]
      have hkept := fun h : arc ∈ b.arcs => mem_arcs_after h call
      tauto

/-- Whatever the calls were, the arcs may be laid out in the order in which they came. -/
theorem buildFrom_newArcs (calls : List BuilderCall) :
    (ofCalls calls).buildFrom (newArcs {} calls) = (ofCalls calls).build := by
  refine buildFrom_eq_build fun arc => ?_
  have hempty : arc ∉ GraphBuilder.arcs {} := fun h =>
    Std.ExtTreeMap.not_mem_empty (mem_arcs.mp h)
  rw [ofCalls, mem_arcs_foldl, or_iff_right hempty]

/-! ## The first edge between two nodes settles their type -/

/-- The answer to an arc between nodes whose type is settled, or not yet. -/
def settle (settled : Option EdgeTypeId) (arc : Arc) (edgeType : EdgeTypeId) : Except Error Unit :=
  if settled.all (· = edgeType) then .ok () else .error (.conflictingEdgeType arc.src arc.dst)

theorem addArc_fst (arc : Arc) (edgeType : EdgeTypeId) :
    (b.addArc arc edgeType).1 = settle (b.existing? arc) arc edgeType := by
  rw [addArc, settle]
  split <;> rfl

theorem settle_or_self (settled : Option EdgeTypeId) (arc : Arc) (edgeType : EdgeTypeId) :
    settle (settled.or (some edgeType)) arc edgeType = settle settled arc edgeType := by
  cases settled with
  | none => simp [settle]
  | some old => rfl

/-- After an arc, be it refused or not, its ends are settled if they were not before. -/
theorem existing?_addArc (h : EdgeTypes.OneType b.edgeTypes) (arc other : Arc)
    (edgeType : EdgeTypeId) :
    (b.addArc arc edgeType).2.existing? other = (b.existing? other).or
      (if other = arc ∨ other = arc.reverse then some edgeType else none) := by
  have hjoins : other = arc ∨ other = arc.reverse → b.existing? other = b.existing? arc := by
    rintro (rfl | rfl)
    · rfl
    · exact h arc
  rw [addArc]
  split
  · next hfits =>
      refine (EdgeTypes.between?_insert h hfits).trans ?_
      split
      · next hsame =>
          rw [hjoins hsame]
          cases hold : b.existing? arc with
          | none => rfl
          | some old =>
              rw [hold, Option.all_some, decide_eq_true_iff] at hfits
              rw [hfits, Option.some_or]
      · exact Option.or_none.symm
  · next hrefused =>
      split
      · next hsame =>
          -- A refusal means that the ends were settled.
          rw [hjoins hsame]
          cases hold : b.existing? arc with
          | none => simp [hold] at hrefused
          | some old => rfl
      · exact Option.or_none.symm

theorem oneType_addArc (h : EdgeTypes.OneType b.edgeTypes) (arc : Arc) (edgeType : EdgeTypeId) :
    EdgeTypes.OneType (b.addArc arc edgeType).2.edgeTypes := by
  rw [addArc]
  split
  · next hfits => exact EdgeTypes.oneType_insert h hfits
  · exact h

end GraphBuilder

/-! ## Lists of edges -/

/-- An edge to be added by its type. -/
structure EdgeEntry where
  src : ExternalId
  dst : ExternalId
  edgeType : EdgeTypeId

namespace EdgeEntry

/-- The call that adds the edge. -/
def call (e : EdgeEntry) : BuilderCall := .addEdgeWithType e.src e.dst e.edgeType

/-- The ends of the edge are among the nodes. -/
def Known (t : NodeTable) (e : EdgeEntry) : Prop :=
  (t.node? e.src).isSome = true ∧ (t.node? e.dst).isSome = true

/-- The arc of the edge between the nodes of its ends. -/
def arc (t : NodeTable) (e : EdgeEntry) : Arc :=
  ⟨(t.node? e.src).getD default, (t.node? e.dst).getD default⟩

/-- The two edges have the same ends, whichever way they point. -/
def SamePair (e f : EdgeEntry) : Prop :=
  e.src = f.src ∧ e.dst = f.dst ∨ e.src = f.dst ∧ e.dst = f.src

instance (e f : EdgeEntry) : Decidable (e.SamePair f) :=
  inferInstanceAs (Decidable (_ ∨ _))

theorem SamePair.refl (e : EdgeEntry) : e.SamePair e := Or.inl ⟨rfl, rfl⟩

theorem SamePair.symm {e f : EdgeEntry} (h : e.SamePair f) : f.SamePair e := by
  unfold SamePair at *
  grind

theorem SamePair.trans {e f g : EdgeEntry} (h : e.SamePair f) (hnext : f.SamePair g) :
    e.SamePair g := by
  unfold SamePair at *
  grind

/-- Edges with the same ends have the same type. -/
def Agree (entries : List EdgeEntry) : Prop :=
  ∀ e ∈ entries, ∀ f ∈ entries, e.SamePair f → e.edgeType = f.edgeType

/-- The answer to an edge of a list: the first edge of the list with the same ends settles
their type. -/
def answer (b : GraphBuilder) (order : List EdgeEntry) (e : EdgeEntry) : Except Error Unit := do
  let arc ← b.resolveArc e.src e.dst
  let first := order.find? fun f => e.SamePair f
  GraphBuilder.settle (first.map edgeType) arc e.edgeType

/-- What a list of edges settles for the ends of an arc. -/
def firstType (t : NodeTable) (order : List EdgeEntry) (arc : Arc) : Option EdgeTypeId :=
  (order.find? fun f => arc = f.arc t ∨ arc = (f.arc t).reverse).map edgeType

theorem firstType_cons (t : NodeTable) (e : EdgeEntry) (rest : List EdgeEntry) (arc : Arc) :
    firstType t (e :: rest) arc =
      (if arc = e.arc t ∨ arc = (e.arc t).reverse then some e.edgeType else none).or
        (firstType t rest arc) := by
  rw [firstType, List.find?_cons]
  by_cases hjoins : arc = e.arc t ∨ arc = (e.arc t).reverse
  · rw [if_pos hjoins, decide_eq_true hjoins]
    rfl
  · rw [if_neg hjoins, decide_eq_false hjoins, Option.none_or]
    rfl

/-- Different external ids are different nodes, so arcs join the same nodes when their edges
have the same ends. -/
theorem arc_eq_or_iff {t : NodeTable} (hroom : t.size ≤ UInt32.size) {e f : EdgeEntry}
    (he : e.Known t) (hf : f.Known t) :
    (e.arc t = f.arc t ∨ e.arc t = (f.arc t).reverse) ↔ e.SamePair f := by
  have hnodes : ∀ {a c : ExternalId}, (t.node? a).isSome = true → (t.node? c).isSome = true →
      ((t.node? a).getD default = (t.node? c).getD default ↔ a = c) := by
    intro a c ha hc
    obtain ⟨first, hfirst⟩ := Option.isSome_iff_exists.mp ha
    obtain ⟨second, hsecond⟩ := Option.isSome_iff_exists.mp hc
    rw [hfirst, hsecond, Option.getD_some, Option.getD_some]
    constructor
    · rintro rfl
      exact NodeTable.eq_of_node? hroom hfirst hsecond
    · rintro rfl
      exact Option.some.inj (hfirst.symm.trans hsecond)
  rw [SamePair, arc, arc, Arc.reverse, Arc.mk.injEq, Arc.mk.injEq, hnodes he.1 hf.1,
    hnodes he.2 hf.2, hnodes he.1 hf.2, hnodes he.2 hf.1]

end EdgeEntry

namespace GraphBuilder

variable {b : GraphBuilder} {order : List EdgeEntry}

/-- What the calls that add the edges of a list in order are answered with. -/
def answers (b : GraphBuilder) : List EdgeEntry → List (Except Error Unit)
  | [] => []
  | e :: rest => (b.addEdgeWithType e.src e.dst e.edgeType).1 :: (b.after e.call).answers rest

theorem resolveArc_of_known {e : EdgeEntry} (h : e.Known b.nodes) :
    b.resolveArc e.src e.dst = .ok (e.arc b.nodes) := by
  obtain ⟨first, hfirst⟩ := Option.isSome_iff_exists.mp h.1
  obtain ⟨second, hsecond⟩ := Option.isSome_iff_exists.mp h.2
  rw [resolveArc_eq_ok_iff, EdgeEntry.arc, hfirst, hsecond]
  exact ⟨rfl, rfl⟩

theorem addEdgeWithType_of_known {e : EdgeEntry} (h : e.Known b.nodes) :
    b.addEdgeWithType e.src e.dst e.edgeType = b.addArc (e.arc b.nodes) e.edgeType := by
  rw [addEdgeWithType, resolveArc_of_known h]

theorem nodes_addArc (arc : Arc) (edgeType : EdgeTypeId) :
    (b.addArc arc edgeType).2.nodes = b.nodes := by
  rw [addArc]
  split <;> rfl

theorem nodes_after_call (e : EdgeEntry) : (b.after e.call).nodes = b.nodes := by
  show (b.addEdgeWithType e.src e.dst e.edgeType).2.nodes = b.nodes
  rw [addEdgeWithType]
  split
  · rfl
  · exact nodes_addArc _ _

theorem answers_eq (hone : EdgeTypes.OneType b.edgeTypes) (hknown : ∀ e ∈ order, e.Known b.nodes) :
    b.answers order = order.map fun e =>
      settle ((b.existing? (e.arc b.nodes)).or (EdgeEntry.firstType b.nodes order (e.arc b.nodes)))
        (e.arc b.nodes) e.edgeType := by
  induction order generalizing b with
  | nil => rfl
  | cons e rest ih =>
      have hnodes : (b.after e.call).nodes = b.nodes := nodes_after_call e
      have hanswer := addEdgeWithType_of_known (hknown e List.mem_cons_self)
      have hafter : b.after e.call = (b.addArc (e.arc b.nodes) e.edgeType).2 :=
        congrArg Prod.snd hanswer
      have hrest := ih (hafter ▸ oneType_addArc hone (e.arc b.nodes) e.edgeType)
        (hnodes.symm ▸ fun f hf => hknown f (List.mem_cons_of_mem e hf))
      rw [answers, List.map_cons, hrest, hnodes, hanswer, addArc_fst]
      refine congrArg₂ List.cons ?_ (List.map_congr_left fun f _ => ?_)
      · rw [EdgeEntry.firstType_cons, if_pos (Or.inl rfl), Option.some_or, settle_or_self]
      · -- What the first edge settles for the others is what the whole list settles for them.
        rw [hafter, existing?_addArc hone, EdgeEntry.firstType_cons, Option.or_assoc]

/-- A builder without edges answers a list of edges between its nodes as the first edge with
the same ends decides. -/
theorem answers_of_empty (hroom : b.nodes.size ≤ UInt32.size) (hempty : b.edgeTypes = ∅)
    (hknown : ∀ e ∈ order, e.Known b.nodes) :
    b.answers order = order.map (EdgeEntry.answer b order) := by
  have hnone : ∀ arc, b.existing? arc = none := fun arc => by simp [existing?, hempty]
  have hone : EdgeTypes.OneType b.edgeTypes := fun arc => (hnone arc.reverse).trans (hnone arc).symm
  rw [answers_eq hone hknown]
  refine List.map_congr_left fun e he => ?_
  have hfirst : EdgeEntry.firstType b.nodes order (e.arc b.nodes) =
      (order.find? fun f => e.SamePair f).map EdgeEntry.edgeType :=
    congrArg _ (List.find?_congr fun f hf =>
      decide_eq_decide.mpr (EdgeEntry.arc_eq_or_iff hroom (hknown e he) (hknown f hf)))
  rw [EdgeEntry.answer, resolveArc_of_known (hknown e he), hnone, Option.none_or, hfirst]
  rfl

/-! ## Lists that agree -/

/-- The table of types after a list of edges that are all accepted. -/
def insertAll (t : NodeTable) (types : Std.ExtTreeMap Arc EdgeTypeId) (order : List EdgeEntry) :
    Std.ExtTreeMap Arc EdgeTypeId :=
  order.foldl (fun types e => types.insert (e.arc t) e.edgeType) types

/-- The bound on the types after a list of edges that are all accepted. -/
def boundAll (bound : Nat) (order : List EdgeEntry) : Nat :=
  order.foldl (fun bound e => max bound (e.edgeType.index + 1)) bound

theorem foldl_after_of_accepted (hknown : ∀ e ∈ order, e.Known b.nodes)
    (hok : ∀ answer ∈ b.answers order, answer = .ok ()) :
    (order.map EdgeEntry.call).foldl after b =
      { b with
        edgeTypes := insertAll b.nodes b.edgeTypes order
        edgeTypeBound := boundAll b.edgeTypeBound order } := by
  induction order generalizing b with
  | nil => rfl
  | cons e rest ih =>
      have hnodes : (b.after e.call).nodes = b.nodes := nodes_after_call e
      have hanswer := addEdgeWithType_of_known (hknown e List.mem_cons_self)
      have haccepted : (b.addArc (e.arc b.nodes) e.edgeType).1 = .ok () := by
        rw [← hanswer]
        exact hok _ List.mem_cons_self
      have hafter : b.after e.call =
          { b with
            edgeTypes := b.edgeTypes.insert (e.arc b.nodes) e.edgeType
            edgeTypeBound := max b.edgeTypeBound (e.edgeType.index + 1) } := by
        refine (congrArg Prod.snd hanswer).trans ?_
        rw [addArc] at haccepted ⊢
        split at haccepted
        · next hfits => rw [if_pos hfits]
        · cases haccepted
      rw [List.map_cons, List.foldl_cons,
        ih (hnodes.symm ▸ fun f hf => hknown f (List.mem_cons_of_mem e hf))
          fun answer hanswer => hok answer (List.mem_cons_of_mem _ hanswer), hafter]
      rfl

theorem getElem?_insertAll {t : NodeTable} {types : Std.ExtTreeMap Arc EdgeTypeId} {arc : Arc}
    {edgeType : EdgeTypeId} (h : ∀ e ∈ order, e.arc t = arc → e.edgeType = edgeType) :
    (insertAll t types order)[arc]? =
      if ∃ e ∈ order, e.arc t = arc then some edgeType else types[arc]? := by
  induction order generalizing types with
  | nil => simp [insertAll]
  | cons e rest ih =>
      rw [insertAll, List.foldl_cons]
      refine (ih fun f hf => h f (List.mem_cons_of_mem e hf)).trans ?_
      rw [getElem?_insert_arc]
      by_cases hsame : e.arc t = arc
      · rw [if_pos hsame, h e List.mem_cons_self hsame, ite_self,
          if_pos ⟨e, List.mem_cons_self, hsame⟩]
      · rw [if_neg hsame]
        refine if_congr ?_ rfl rfl
        simp [hsame]

theorem boundAll_le {bound limit : Nat} :
    boundAll bound order ≤ limit ↔ bound ≤ limit ∧ ∀ e ∈ order, e.edgeType.index < limit := by
  induction order generalizing bound with
  | nil => simp [boundAll]
  | cons e rest ih =>
      rw [boundAll, List.foldl_cons]
      refine ih.trans ?_
      rw [List.forall_mem_cons, Nat.max_le, Nat.succ_le_iff, and_assoc]

/-- Lists that agree and have the same members leave the same table of types. -/
theorem insertAll_congr {t : NodeTable} (hroom : t.size ≤ UInt32.size)
    {types : Std.ExtTreeMap Arc EdgeTypeId} {entries others : List EdgeEntry}
    (hknown : ∀ e ∈ entries, e.Known t) (hagree : EdgeEntry.Agree entries)
    (hsame : ∀ e, e ∈ others ↔ e ∈ entries) :
    insertAll t types others = insertAll t types entries := by
  refine Std.ExtTreeMap.ext_getElem? fun arc => ?_
  -- Any edge with the arc tells the type of all of them.
  obtain ⟨edgeType, htype⟩ : ∃ edgeType, ∀ e ∈ entries, e.arc t = arc → e.edgeType = edgeType := by
    by_cases hfound : ∃ e ∈ entries, e.arc t = arc
    · obtain ⟨e, he, rfl⟩ := hfound
      refine ⟨e.edgeType, fun f hf harc => hagree f hf e he ?_⟩
      exact (EdgeEntry.arc_eq_or_iff hroom (hknown f hf) (hknown e he)).mp (Or.inl harc)
    · exact ⟨default, fun e he harc => absurd ⟨e, he, harc⟩ hfound⟩
  rw [getElem?_insertAll htype, getElem?_insertAll fun e he => htype e ((hsame e).mp he)]
  simp only [hsame]

theorem boundAll_congr {bound : Nat} {entries others : List EdgeEntry}
    (hsame : ∀ e, e ∈ others ↔ e ∈ entries) : boundAll bound others = boundAll bound entries :=
  eq_of_forall_ge_iff fun limit => by simp only [boundAll_le, hsame]

end GraphBuilder

namespace EdgeEntry

variable {b : GraphBuilder} {order : List EdgeEntry}

theorem answer_eq_ok_iff {e first : EdgeEntry} (hknown : e.Known b.nodes)
    (hfirst : order.find? (fun f => e.SamePair f) = some first) :
    answer b order e = .ok () ↔ first.edgeType = e.edgeType := by
  rw [answer, GraphBuilder.resolveArc_of_known hknown, hfirst]
  show GraphBuilder.settle (some first.edgeType) _ _ = _ ↔ _
  rw [GraphBuilder.settle, Option.all_some]
  split
  · next h => exact iff_of_true rfl (of_decide_eq_true h)
  · next h => exact iff_of_false (fun hok => by cases hok) fun heq => h (decide_eq_true heq)

theorem exists_first {e f : EdgeEntry} (hf : f ∈ order) (hpair : e.SamePair f) :
    ∃ first ∈ order, e.SamePair first ∧
      order.find? (fun other => e.SamePair other) = some first := by
  have hsome : (order.find? fun other => e.SamePair other).isSome = true :=
    List.find?_isSome.mpr ⟨f, hf, decide_eq_true hpair⟩
  obtain ⟨first, hfirst⟩ := Option.isSome_iff_exists.mp hsome
  have hjoins := List.find?_some hfirst
  exact ⟨first, List.mem_of_find?_eq_some hfirst, of_decide_eq_true hjoins, hfirst⟩

theorem forall_answer_eq_ok_iff (hknown : ∀ e ∈ order, e.Known b.nodes) :
    (∀ e ∈ order, answer b order e = .ok ()) ↔ Agree order := by
  constructor
  · intro hok e he f hf hpair
    -- Both have the same first edge, and its type.
    obtain ⟨first, -, -, hfirst⟩ := exists_first hf hpair
    have hsame : order.find? (fun other => f.SamePair other) = some first := by
      rw [← hfirst]
      exact List.find?_congr fun other _ => decide_eq_decide.mpr ⟨hpair.trans, hpair.symm.trans⟩
    rw [← (answer_eq_ok_iff (hknown e he) hfirst).mp (hok e he),
      ← (answer_eq_ok_iff (hknown f hf) hsame).mp (hok f hf)]
  · intro hagree e he
    obtain ⟨first, hmem, hpair, hfirst⟩ := exists_first he (.refl e)
    exact (answer_eq_ok_iff (hknown e he) hfirst).mpr (hagree first hmem e he hpair.symm)

end EdgeEntry

/-! ## Graphs -/

/-- Whether a call adds a node, by names or by ids. -/
def BuilderCall.AddsNode : BuilderCall → Prop
  | .addNode _ _ | .addNodeWithLabels _ _ => True
  | .addEdge _ _ _ | .addEdgeWithType _ _ _ => False

namespace GraphBuilder

theorem edgeTypes_after_of_addsNode {b : GraphBuilder} {call : BuilderCall} (h : call.AddsNode) :
    (b.after call).edgeTypes = b.edgeTypes := by
  cases call with
  | addNode external names => exact edgeTypes_addNodeWithLabels external _
  | addNodeWithLabels external labels => exact edgeTypes_addNodeWithLabels external labels
  | addEdge src dst name => exact h.elim
  | addEdgeWithType src dst edgeType => exact h.elim

theorem edgeTypes_foldl_of_addsNode {b : GraphBuilder} {calls : List BuilderCall}
    (h : ∀ call ∈ calls, call.AddsNode) : (calls.foldl after b).edgeTypes = b.edgeTypes := by
  induction calls generalizing b with
  | nil => rfl
  | cons call rest ih =>
      rw [List.foldl_cons, ih fun other hother => h other (List.mem_cons_of_mem call hother),
        edgeTypes_after_of_addsNode (h call List.mem_cons_self)]

/-- The edges between given nodes may come in any order and any number of times. Each is
answered as the first edge with the same ends decides: it is accepted if it has the same type,
and conflicts with it otherwise. If edges with the same ends have the same type, then all are
accepted and the graph is always the same one, also when the arcs are laid out as they came; if
not, then some edge is refused in any order. -/
theorem edge_order (nodeCalls : List BuilderCall) (hnodes : ∀ call ∈ nodeCalls, call.AddsNode)
    (entries others : List EdgeEntry)
    (hknown : ∀ e ∈ entries, e.Known (ofCalls nodeCalls).nodes)
    (hsame : ∀ e, e ∈ others ↔ e ∈ entries) :
    let b := ofCalls nodeCalls
    let calls (order : List EdgeEntry) := nodeCalls ++ order.map EdgeEntry.call
    b.answers others = others.map (EdgeEntry.answer b others) ∧
      (EdgeEntry.Agree entries →
        (∀ answer ∈ b.answers others, answer = .ok ()) ∧
        (ofCalls (calls others)).build = (ofCalls (calls entries)).build ∧
        (ofCalls (calls others)).buildFrom (newArcs {} (calls others)) =
          (ofCalls (calls entries)).build) ∧
      (¬ EdgeEntry.Agree entries → ∃ answer ∈ b.answers others, answer ≠ .ok ()) := by
  intro b calls
  obtain ⟨additions, -, hrecords⟩ := records_ofCalls nodeCalls
  have hroom : b.nodes.size ≤ UInt32.size := hrecords.nodes.room
  have hempty : b.edgeTypes = ∅ := edgeTypes_foldl_of_addsNode hnodes
  have hknown' : ∀ e ∈ others, e.Known b.nodes := fun e he => hknown e ((hsame e).mp he)
  have hagrees : EdgeEntry.Agree others ↔ EdgeEntry.Agree entries := by
    simp only [EdgeEntry.Agree, hsame]
  have hanswers := answers_of_empty hroom hempty hknown'
  -- The verdict on a list depends on its members only.
  have hverdict : ∀ {order : List EdgeEntry}, (∀ e ∈ order, e.Known b.nodes) →
      ((∀ answer ∈ b.answers order, answer = .ok ()) ↔ EdgeEntry.Agree order) := by
    intro order horder
    rw [answers_of_empty hroom hempty horder, List.forall_mem_map,
      EdgeEntry.forall_answer_eq_ok_iff horder]
  refine ⟨hanswers, fun hagree => ?_, fun hdisagree => ?_⟩
  · have hok := (hverdict hknown').mpr (hagrees.mpr hagree)
    have hbuilders : ofCalls (calls others) = ofCalls (calls entries) := by
      rw [ofCalls, ofCalls, List.foldl_append, List.foldl_append]
      refine (foldl_after_of_accepted hknown' hok).trans ?_
      rw [insertAll_congr hroom hknown hagree hsame, boundAll_congr hsame]
      exact (foldl_after_of_accepted hknown ((hverdict hknown).mpr hagree)).symm
    rw [buildFrom_newArcs, hbuilders]
    exact ⟨hok, rfl, rfl⟩
  · by_contra hall
    push Not at hall
    exact hdisagree (hagrees.mp ((hverdict hknown').mp hall))

/-- Two nodes, each with a label of its own. -/
def twoNodes : List BuilderCall :=
  [.addNodeWithLabels ⟨7⟩ [⟨0⟩], .addNodeWithLabels ⟨3⟩ [⟨1⟩]]

theorem addsNode_twoNodes : ∀ call ∈ twoNodes, call.AddsNode := by
  simp [twoNodes, BuilderCall.AddsNode]

theorem records_twoNodes : (ofCalls twoNodes).Records [.node ⟨7⟩ [⟨0⟩], .node ⟨3⟩ [⟨1⟩]] :=
  (records_empty.addNode ⟨7⟩ [⟨0⟩] (by decide) (by decide) (by decide)).addNode
    ⟨3⟩ [⟨1⟩] (by decide) (by decide) (by decide)

theorem known_twoNodes {e : EdgeEntry} (hsrc : e.src = ⟨7⟩ ∨ e.src = ⟨3⟩)
    (hdst : e.dst = ⟨7⟩ ∨ e.dst = ⟨3⟩) : e.Known (ofCalls twoNodes).nodes := by
  have hfirst : (ofCalls twoNodes).nodes.node? ⟨7⟩ = some ⟨0⟩ :=
    records_twoNodes.node?_eq_some_iff.mpr rfl
  have hsecond : (ofCalls twoNodes).nodes.node? ⟨3⟩ = some ⟨1⟩ :=
    records_twoNodes.node?_eq_some_iff.mpr rfl
  constructor
  · rcases hsrc with h | h <;> rw [h] <;> simp [hfirst, hsecond]
  · rcases hdst with h | h <;> rw [h] <;> simp [hfirst, hsecond]

/-- An edge both ways and a loop, all in one order and in the other with repetitions; and two
edges that do not agree, of which one is refused whichever comes first. -/
theorem edge_order_twoNodes :
    let forth : EdgeEntry := ⟨⟨7⟩, ⟨3⟩, ⟨5⟩⟩
    let back : EdgeEntry := ⟨⟨3⟩, ⟨7⟩, ⟨5⟩⟩
    let other : EdgeEntry := ⟨⟨3⟩, ⟨7⟩, ⟨6⟩⟩
    let round : EdgeEntry := ⟨⟨7⟩, ⟨7⟩, ⟨4⟩⟩
    let built (order : List EdgeEntry) :=
      (ofCalls (twoNodes ++ order.map EdgeEntry.call)).build
    built [round, back, forth, round] = built [forth, back, round] ∧
      (∃ answer ∈ (ofCalls twoNodes).answers [forth, other], answer ≠ .ok ()) ∧
      ∃ answer ∈ (ofCalls twoNodes).answers [other, forth], answer ≠ .ok () := by
  intro forth back other round built
  have hagreeing := edge_order twoNodes addsNode_twoNodes [forth, back, round]
    [round, back, forth, round]
    (by simp [forth, back, round, known_twoNodes])
    (by simp [forth, back, round]; tauto)
  have hconflict := fun order hsame => edge_order twoNodes addsNode_twoNodes [forth, other] order
    (by simp [forth, other, known_twoNodes]) hsame
  have hagree : EdgeEntry.Agree [forth, back, round] := by
    simp [EdgeEntry.Agree, EdgeEntry.SamePair, forth, back, round]
  have hdisagree : ¬ EdgeEntry.Agree [forth, other] := by
    simp [EdgeEntry.Agree, EdgeEntry.SamePair, forth, other]
  exact ⟨(hagreeing.2.1 hagree).2.1, (hconflict _ fun _ => Iff.rfl).2.2 hdisagree,
    (hconflict _ (by simp [or_comm])).2.2 hdisagree⟩

end GraphBuilder

end Hetnet
