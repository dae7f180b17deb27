import Mathlib
import Hetnet.Enumeration
import Hetnet.Proofs.Acceptance
import Hetnet.Proofs.Declarations

/-!
# A search reads a neighborhood

A search from a node reads the labels of every node that it comes to, and the neighbors and edge
types of those from which it goes on. With a bound of k hops the former are within k hops and
the latter within fewer. `Network.AgreesWithin` says that two networks agree on just that.

Agreement within some hops of a node is agreement within one hop less of each of its
neighbors (`AgreesWithin.step`), and this is all that the induction on the remaining hops needs:
draws are made from the seed of a visit for its neighbors in order, so where the neighbors are the
same, the draws and the seeds that they hand on are the same. Numbers of nodes, labels and edge
types are never read, except to check the nodes of the request.

A builder that goes on adding keeps what it has: labels of its nodes never change, and the
neighbors of a node change only with an edge at that node.
-/

namespace Hetnet

namespace Network

variable {g other : Network} {direction : Direction} {start node next : NodeId} {hops : Nat}

/-- A walk of at most so many hops leads to the node. -/
def Within (g : Network) (direction : Direction) (start : NodeId) (hops : Nat)
    (node : NodeId) : Prop :=
  ∃ walk, g.Joined direction start walk ∧ walk.length ≤ hops ∧ walk.getLastD start = node

theorem within_self : g.Within direction start hops start :=
  ⟨[], List.isChain_singleton _, Nat.zero_le _, rfl⟩

theorem within_of_mem_neighbors (hnext : next ∈ g.neighbors start direction)
    (h : g.Within direction next hops node) : g.Within direction start (hops + 1) node := by
  obtain ⟨walk, hwalk, hlength, hlast⟩ := h
  refine ⟨next :: walk, joined_cons.mpr ⟨hnext, hwalk⟩, Nat.succ_le_succ hlength, ?_⟩
  rw [← hlast]
  cases walk <;> rfl

/-- Two networks agree on what a search of so many hops from a node reads. -/
structure AgreesWithin (g other : Network) (direction : Direction) (start : NodeId)
    (hops : Nat) : Prop where
  neighbors : ∀ fewer < hops, ∀ node, g.Within direction start fewer node →
    other.neighbors node direction = g.neighbors node direction
  edgeType : ∀ fewer < hops, ∀ node, g.Within direction start fewer node →
    ∀ next ∈ g.neighbors node direction, other.edgeType node next = g.edgeType node next
  labels : ∀ node, g.Within direction start hops node → other.labels node = g.labels node

theorem AgreesWithin.step (h : g.AgreesWithin other direction start (hops + 1))
    (hnext : next ∈ g.neighbors start direction) :
    g.AgreesWithin other direction next hops where
  neighbors fewer hlt node hnode :=
    h.neighbors (fewer + 1) (Nat.succ_lt_succ hlt) node (within_of_mem_neighbors hnext hnode)
  edgeType fewer hlt node hnode :=
    h.edgeType (fewer + 1) (Nat.succ_lt_succ hlt) node (within_of_mem_neighbors hnext hnode)
  labels node hnode := h.labels node (within_of_mem_neighbors hnext hnode)

end Network

/-! ## Searches -/

theorem foldlM_congr_of_mem {α β ε : Type} {step step' : β → α → Except ε β} {list : List α}
    (h : ∀ b, ∀ a ∈ list, step' b a = step b a) (init : β) :
    list.foldlM step' init = list.foldlM step init := by
  induction list generalizing init with
  | nil => rfl
  | cons a rest ih =>
      rw [List.foldlM_cons, List.foldlM_cons, h init a List.mem_cons_self]
      exact bind_congr fun b => ih (fun b a ha => h b a (List.mem_cons_of_mem _ ha)) b

namespace Search

variable {C : Type} [Collector C]

/-- The same search in another network. -/
def inside (s : Search) (g : Network) : Search := { s with network := g }

theorem visit_inside {s : Search} {g : Network} {remaining : Nat} {node : NodeId}
    (h : s.network.AgreesWithin g s.direction node remaining) (seed : UInt64) (trace : Trace)
    (found : Findings C) :
    (s.inside g).visit remaining node seed trace found =
      s.visit remaining node seed trace found := by
  induction remaining generalizing node seed trace found with
  | zero => rfl
  | succ remaining ih =>
      have hneighbors : g.neighbors node s.direction = s.network.neighbors node s.direction :=
        h.neighbors 0 (Nat.succ_pos _) node Network.within_self
      have hkept : (s.inside g).kept node seed = s.kept node seed := by
        show (Branch.ofSeed s.edgeSkip seed).kept (g.neighbors node s.direction) = _
        rw [hneighbors]
        rfl
      rw [visit, visit, hkept]
      refine foldlM_congr_of_mem (fun found entry hentry => ?_) found
      obtain ⟨next, childSeed⟩ := entry
      have hnext : next ∈ s.network.neighbors node s.direction := mem_neighbors_of_mem_kept hentry
      have htype : g.edgeType node next = s.network.edgeType node next :=
        h.edgeType 0 (Nat.succ_pos _) node Network.within_self next hnext
      have hlabels : g.labels next = s.network.labels next :=
        (h.step hnext).labels next Network.within_self
      show (do
          let edgeType ← g.edgeType node next
          let labels ← g.labels next
          let trace := trace.push edgeType labels
          let found := if s.records next trace then found.record trace else found
          if s.target = some next then return found
          else (s.inside g).visit remaining next childSeed trace found) = _
      simp only [htype, hlabels, ih (h.step hnext)]

theorem run_inside {s : Search} {g : Network} {start : NodeId}
    (h : s.network.AgreesWithin g s.direction start s.maxLength) (seed : UInt64) :
    (s.inside g).run (C := C) start seed = s.run start seed := by
  have hlabels : g.labels start = s.network.labels start := h.labels start Network.within_self
  rw [run, run]
  show (do
    Trace.reserve s.maxLength
    let labels ← g.labels start
    (s.inside g).visit s.maxLength start seed { start := labels } .empty) = _
  simp only [hlabels, visit_inside h]

end Search

namespace Enumerator

variable {C : Type} [Collector C] {e : Enumerator} {g : Network} {start : NodeId}
  {settings : SearchSettings}

/-- The same enumerator over another network. -/
def inside (e : Enumerator) (g : Network) : Enumerator := { e with network := g }

theorem searchFrom_inside (hsink : e.sink = none)
    (h : e.network.AgreesWithin g e.direction start settings.maxLength) (stop : Option NodeId) :
    (e.inside g).searchFrom (C := C) settings start stop = e.searchFrom settings start stop := by
  have hrun : ∀ seed, ((e.inside g).search settings stop).run (C := C) start seed =
      (e.search settings stop).run start seed :=
    Search.run_inside (s := e.search settings stop) h
  have hnothing : ∀ {e : Enumerator}, e.sink = none → ∀ paths,
      e.handOut settings start stop paths = .ok #[] := by
    intro e hsink paths
    unfold handOut
    rw [hsink]
  rw [searchFrom, searchFrom]
  simp only [hrun, hnothing hsink, hnothing (e := e.inside g) hsink]
  rfl

/-- Two enumerators that give the same answers to a request, be they results or failures. -/
structure AgreeOn (e e' : Enumerator) (settings : SearchSettings) (request : Request) : Prop where
  occurrences : e'.occurrences request settings = e.occurrences request settings
  enumerate : e'.enumerate request settings = e.enumerate request settings

theorem agreeOn_of_collect {e e' : Enumerator} {request : Request}
    (h : ∀ (C : Type) [Collector C],
      e'.collect (C := C) request settings = e.collect request settings) :
    e.AgreeOn e' settings request where
  occurrences := by rw [occurrences, occurrences, h]
  enumerate := by rw [enumerate, enumerate, enumerateWithDumps, enumerateWithDumps, h]

/-- Two enumerators that agree on the requests for walks from a node, be it to any node or to one
that both know. -/
structure AnswersFrom (e e' : Enumerator) (settings : SearchSettings) (start : NodeId) : Prop where
  walksFrom : e.AgreeOn e' settings (.walksFrom start)
  pair : ∀ stop, e.network.contains stop = true → e'.network.contains stop = true →
    e.AgreeOn e' settings (.pair start stop)

/-- Networks that agree on a neighborhood answer alike from its middle. -/
theorem answersFrom_inside (hsink : e.sink = none)
    (h : e.network.AgreesWithin g e.direction start settings.maxLength)
    (hstart : e.network.contains start = true) (hstart' : g.contains start = true) :
    e.AnswersFrom (e.inside g) settings start := by
  have hcheck : ∀ node, e.network.contains node = true → g.contains node = true →
      g.check node = e.network.check node := by
    intro node hnode hnode'
    rw [Network.check, Network.check, hnode, hnode']
  refine ⟨agreeOn_of_collect fun C _ => ?_, fun stop hstop hstop' =>
    agreeOn_of_collect fun C _ => ?_⟩
  · unfold collect
    simp only [searchFrom_inside hsink h]
    show (do
      settings.validate
      g.check start
      e.searchFrom settings start none : Except Failure (Outcome C)) = _
    rw [hcheck start hstart hstart']
  · unfold collect
    simp only [searchFrom_inside hsink h]
    show (do
      settings.validate
      g.check start
      g.check stop
      e.searchFrom settings start (some stop) : Except Failure (Outcome C)) = _
    rw [hcheck start hstart hstart', hcheck stop hstop hstop']

end Enumerator

/-! ## Graphs that go on growing -/

/-- The external ids between which a call adds an edge. -/
def BuilderCall.ends : BuilderCall → List ExternalId
  | .addNode _ _ | .addNodeWithLabels _ _ => []
  | .addEdge src dst _ | .addEdgeWithType src dst _ => [src, dst]

/-- A node is an end of an arc. -/
def Arc.Touches (arc : Arc) (node : NodeId) : Prop := arc.src = node ∨ arc.dst = node

/-- A call that adds an edge at a node names the node. -/
theorem Graph.node_of_addition? {g : Graph} {call : BuilderCall} {arc : Arc}
    {edgeType : EdgeTypeId} (h : g.addition? call = some (.edge arc edgeType)) {node : NodeId}
    (hnode : arc.Touches node) : ∃ external ∈ call.ends, g.node external = .ok node := by
  have hends : ∀ {src dst : ExternalId}, g.nodes.node? src = some arc.src →
      g.nodes.node? dst = some arc.dst → ∃ external ∈ [src, dst], g.node external = .ok node := by
    intro src dst hsrc hdst
    rcases hnode with rfl | rfl
    · exact ⟨src, by simp, Graph.node_eq_ok_iff.mpr hsrc⟩
    · exact ⟨dst, by simp, Graph.node_eq_ok_iff.mpr hdst⟩
  cases call with
  | addNode external names =>
      obtain ⟨labels, -, heq⟩ := Option.bind_eq_some_iff.mp h
      cases heq
  | addNodeWithLabels external labels => cases h
  | addEdge src dst name =>
      obtain ⟨first, hfirst, h⟩ := Option.bind_eq_some_iff.mp h
      obtain ⟨second, hsecond, h⟩ := Option.bind_eq_some_iff.mp h
      obtain ⟨type, -, h⟩ := Option.bind_eq_some_iff.mp h
      cases h
      exact hends hfirst hsecond
  | addEdgeWithType src dst type =>
      obtain ⟨first, hfirst, h⟩ := Option.bind_eq_some_iff.mp h
      obtain ⟨second, hsecond, h⟩ := Option.bind_eq_some_iff.mp h
      cases h
      exact hends hfirst hsecond

theorem Addition.nodes_append (additions more : List Addition) :
    nodes (additions ++ more) = nodes additions ++ nodes more :=
  List.filterMap_append

namespace GraphBuilder

variable {b grown : GraphBuilder} {additions more : List Addition}

theorem mem_of_mem_acceptedFrom {calls : List BuilderCall} {call : BuilderCall}
    (h : call ∈ b.acceptedFrom calls) : call ∈ calls := by
  induction calls generalizing b with
  | nil => cases h
  | cons first rest ih =>
      rw [acceptedFrom] at h
      split at h
      · rcases List.mem_cons.mp h with rfl | hrest
        · exact List.mem_cons_self
        · exact List.mem_cons_of_mem _ (ih hrest)
      · exact List.mem_cons_of_mem _ (ih h)

theorem Records.labels_append (h : b.Records additions) (hgrown : grown.Records (additions ++ more))
    {node : NodeId} (hnode : node.index < b.nodeCount) :
    grown.build.labels node = b.build.labels node := by
  have hlt : node.index < (Addition.nodes additions).length := h.nodeCount ▸ hnode
  have hentry := List.getElem?_eq_getElem hlt
  have hmore : (Addition.nodes (additions ++ more))[node.index]? =
      some (Addition.nodes additions)[node.index] := by
    rw [Addition.nodes_append, List.getElem?_append_left hlt]
    exact hentry
  rw [h.labels hentry, hgrown.labels hmore]

theorem Records.nodeCount_append (h : b.Records additions)
    (hgrown : grown.Records (additions ++ more)) : b.nodeCount ≤ grown.nodeCount := by
  rw [h.nodeCount, hgrown.nodeCount, Addition.nodes_append, List.length_append]
  exact Nat.le_add_right _ _

/-- An arc that is not added has the type that it had, if any. -/
theorem Records.getElem?_append (h : b.Records additions)
    (hgrown : grown.Records (additions ++ more)) {arc : Arc}
    (hnew : ∀ edgeType, Addition.edge arc edgeType ∉ more) :
    grown.edgeTypes[arc]? = b.edgeTypes[arc]? := by
  refine Option.ext fun edgeType => ?_
  rw [hgrown.edges.mem_iff, h.edges.mem_iff, Addition.mem_edges, Addition.mem_edges,
    List.mem_append, or_iff_left (hnew edgeType)]

theorem increasing_neighbors (b : GraphBuilder) (node : NodeId) (direction : Direction) :
    Increasing (b.build.neighbors node direction) := by
  cases direction <;> exact increasing_ofArcs _ _ node

section

variable {node : NodeId}
  (h : ∀ arc : Arc, arc.Touches node → grown.edgeTypes[arc]? = b.edgeTypes[arc]?)
include h

theorem edgeType_of_touches (next : NodeId) :
    grown.build.edgeType node next = b.build.edgeType node next := by
  have hforth : grown.build.edgeTypes[Arc.mk node next]? = b.build.edgeTypes[Arc.mk node next]? :=
    h ⟨node, next⟩ (Or.inl rfl)
  have hback : grown.build.edgeTypes[Arc.mk next node]? = b.build.edgeTypes[Arc.mk next node]? :=
    h ⟨next, node⟩ (Or.inr rfl)
  rw [Graph.edgeType, Graph.edgeType, hforth, hback]

theorem neighbors_of_touches (hends : b.Consistent) (hends' : grown.Consistent)
    (direction : Direction) :
    grown.build.neighbors node direction = b.build.neighbors node direction := by
  have harcs : ∀ arc : Arc, arc.Touches node → (arc ∈ grown.arcs ↔ arc ∈ b.arcs) := by
    intro arc harc
    rw [mem_arcs, mem_arcs, Std.ExtTreeMap.mem_iff_isSome_getElem?,
      Std.ExtTreeMap.mem_iff_isSome_getElem?, h arc harc]
  have hforth := fun next : NodeId => harcs ⟨node, next⟩ (Or.inl rfl)
  have hback := fun next : NodeId => harcs ⟨next, node⟩ (Or.inr rfl)
  refine List.Pairwise.eq_of_mem_iff (increasing_neighbors grown node direction)
    (increasing_neighbors b node direction) fun next => ?_
  cases direction with
  | outgoing => exact (mem_outgoing hends').trans ((hforth next).trans (mem_outgoing hends).symm)
  | incoming => exact (mem_incoming hends').trans ((hback next).trans (mem_incoming hends).symm)
  | both =>
      exact (mem_both hends').trans
        ((or_congr (hforth next) (hback next)).trans (mem_both hends).symm)

end

theorem contains_of_within (h : b.Consistent) {direction : Direction} {start node : NodeId}
    {hops : Nat} (hstart : b.build.network.contains start = true)
    (hnode : b.build.network.Within direction start hops node) :
    b.build.network.contains node = true := by
  obtain ⟨walk, hwalk, -, rfl⟩ := hnode
  clear hops
  induction walk generalizing start with
  | nil => exact hstart
  | cons next rest ih =>
      obtain ⟨hnext, hrest⟩ := Network.joined_cons.mp hwalk
      have hlast : (next :: rest).getLastD start = rest.getLastD next := by cases rest <;> rfl
      rw [hlast]
      exact ih (contains_of_mem_neighbors h hnext) hrest

/-- None of the calls adds an edge at a node from which a search of so many hops goes on. -/
def LeaveAlone (calls more : List BuilderCall) (direction : Direction) (start : NodeId)
    (hops : Nat) : Prop :=
  ∀ call ∈ more, ∀ external ∈ call.ends, ∀ node,
    (ofCalls (calls ++ more)).build.node external = .ok node →
      ∀ fewer < hops, ¬ (ofCalls calls).build.network.Within direction start fewer node

theorem agreesWithin_append {calls more : List BuilderCall} {direction : Direction}
    {start : NodeId} {hops : Nat}
    (hstart : (ofCalls calls).build.network.contains start = true)
    (h : LeaveAlone calls more direction start hops) :
    (ofCalls calls).build.network.AgreesWithin (ofCalls (calls ++ more)).build.network direction
        start hops ∧
      ∀ node, (ofCalls calls).build.network.contains node = true →
        (ofCalls (calls ++ more)).build.network.contains node = true := by
  obtain ⟨additions, -, hrecords⟩ := records_ofCalls calls
  obtain ⟨-, added, hadded, hgrown⟩ := records_foldl hrecords more
  have hrun : more.foldl after (ofCalls calls) = ofCalls (calls ++ more) :=
    (List.foldl_append ..).symm
  rw [hrun] at hadded hgrown
  -- What an added arc touches is named by a call, so it is no node that is left alone.
  have htouched : ∀ fewer < hops, ∀ node,
      (ofCalls calls).build.network.Within direction start fewer node →
        ∀ arc : Arc, arc.Touches node →
          (ofCalls (calls ++ more)).edgeTypes[arc]? = (ofCalls calls).edgeTypes[arc]? := by
    intro fewer hlt node hwithin arc harc
    refine hrecords.getElem?_append hgrown fun edgeType hedge => ?_
    obtain ⟨call, hcall, hread⟩ := (mem_of_mapM_eq_some hadded).mp hedge
    obtain ⟨external, hexternal, hnode⟩ := Graph.node_of_addition? hread harc
    exact h call (mem_of_mem_acceptedFrom hcall) external hexternal node hnode fewer hlt hwithin
  refine ⟨⟨fun fewer hlt node hwithin => ?_, fun fewer hlt node hwithin next _ => ?_,
    fun node hwithin => ?_⟩, fun node hnode => ?_⟩
  · exact neighbors_of_touches (htouched fewer hlt node hwithin) (consistent_ofCalls calls)
      (consistent_ofCalls (calls ++ more)) direction
  · exact congrArg liftM (edgeType_of_touches (htouched fewer hlt node hwithin) next)
  · have hnode := contains_of_within (consistent_ofCalls calls) hstart hwithin
    exact congrArg Except.ok (hrecords.labels_append hgrown (contains_build_iff.mp hnode))
  · rw [contains_build_iff] at hnode ⊢
    exact lt_of_lt_of_le hnode (hrecords.nodeCount_append hgrown)

/-- A search reads a neighborhood of the start node and nothing else. In two networks that agree
on it, requests for the walks from the node have the same answers, be they results or failures.
So it is for the graph of a builder after further calls, which knows the nodes that were known
before, as long as they add no edge at a node from which the search goes on. -/
theorem search_reads_neighborhood (direction : Direction) (seed : UInt64)
    (settings : SearchSettings) (start : NodeId) :
    let asked (g : Network) : Enumerator := { network := g, direction, seed }
    (∀ g other : Network, g.AgreesWithin other direction start settings.maxLength →
      g.contains start = true → other.contains start = true →
        (asked g).AnswersFrom (asked other) settings start) ∧
    ∀ calls more : List BuilderCall, LeaveAlone calls more direction start settings.maxLength →
      let g := (ofCalls calls).build.network
      let other := (ofCalls (calls ++ more)).build.network
      g.contains start = true →
        (∀ node, g.contains node = true → other.contains node = true) ∧
          (asked g).AnswersFrom (asked other) settings start := by
  intro asked
  have hagree : ∀ g other : Network, g.AgreesWithin other direction start settings.maxLength →
      g.contains start = true → other.contains start = true →
        (asked g).AnswersFrom (asked other) settings start := fun g other h hstart hstart' =>
    Enumerator.answersFrom_inside (e := asked g) rfl h hstart hstart'
  refine ⟨hagree, ?_⟩
  intro calls more hmore g other hstart
  obtain ⟨h, hcontains⟩ := agreesWithin_append hstart hmore
  exact ⟨hcontains, hagree g other h hstart (hcontains start hstart)⟩

/-- A node and an edge to it at the first of the two nodes of the loop. -/
def spur : List BuilderCall := [.addNodeWithLabels ⟨5⟩ [⟨3⟩], .addEdgeWithType ⟨7⟩ ⟨5⟩ ⟨9⟩]

theorem leaveAlone_spur : LeaveAlone loop spur .both ⟨1⟩ 1 := by
  have hrecords : (ofCalls (loop ++ spur)).Records
      (loopAdditions ++ [.node ⟨5⟩ [⟨3⟩]] ++ [.edge ⟨⟨0⟩, ⟨2⟩⟩ ⟨9⟩]) :=
    (records_loop.addNode ⟨5⟩ [⟨3⟩] (by decide) (by decide) (by decide)).addEdge ⟨⟨0⟩, ⟨2⟩⟩ ⟨9⟩
      rfl rfl (by simp [Addition.edges, loopAdditions, Arc.reverse])
  intro call hcall external hexternal node hnode fewer hlt hwithin
  -- Without a hop only the second node is reached, and no edge is added there.
  obtain ⟨walk, -, hlength, rfl⟩ := hwithin
  obtain rfl : walk = [] := List.length_eq_zero_iff.mp (by omega)
  have hsecond := hrecords.node_eq_ok.mp hnode
  have hthree : external = ⟨3⟩ := (Option.some.inj hsecond).symm
  simp only [spur, List.mem_cons, List.not_mem_nil, or_false] at hcall
  rcases hcall with rfl | rfl <;> simp [BuilderCall.ends, hthree] at hexternal

/-- From the second node of the loop one hop is the same with the spur and without, with every
second edge skipped. -/
theorem search_reads_neighborhood_spur :
    let asked (calls : List BuilderCall) : Enumerator :=
      { network := (ofCalls calls).build.network, seed := 7 }
    (asked loop).AnswersFrom (asked (loop ++ spur)) { maxLength := 1, edgeSkip := 0.5 } ⟨1⟩ := by
  have hstart : (ofCalls loop).build.network.contains ⟨1⟩ = true := by
    rw [contains_build_iff, records_loop.nodeCount]
    decide
  exact ((search_reads_neighborhood .both 7 { maxLength := 1, edgeSkip := 0.5 } ⟨1⟩).2 loop spur
    leaveAlone_spur hstart).2

end GraphBuilder

end Hetnet
