import Mathlib
import Hetnet.Proofs.Acceptance
import Hetnet.Proofs.Renamings
import Hetnet.Proofs.Scans

/-!
# No result shows how a graph numbers its nodes

A graph numbers its nodes in the order in which they were added, and keeps its neighbors and
edges in the order of these numbers. Two graphs that differ in nothing else are renamed
networks of each other (`GraphBuilder.renames_network`), hence a request that skips nothing
observes the same in both.

For schemas there is less to do, because no node appears in them. Both graphs link the
same labels, and an extracted schema is determined by its links and its number of labels. Rows
past the last id are empty, since nothing that is recorded has such an id
(`Schema.Confined`); where the rows cannot be allocated, both extractions fail in their first
block.
-/

namespace Hetnet

/-! ## Schemas of networks with the same links -/

theorem foldlM_preserves {α β ε : Type} {P : β → Prop} {step : β → α → Except ε β}
    (hstep : ∀ a b c, step b a = .ok c → P b → P c) {list : List α} {b c : β}
    (h : list.foldlM step b = .ok c) (hb : P b) : P c := by
  induction list generalizing b with
  | nil =>
      cases h
      exact hb
  | cons a rest ih =>
      rw [List.foldlM_cons] at h
      obtain ⟨middle, hmiddle, hrest⟩ := ok_of_bind h
      exact ih hrest (hstep a b middle hmiddle hb)

namespace Schema

/-- A schema in which no row past the last id of a label has links. -/
def Confined (s : Schema) : Prop := ∀ i, UInt32.size ≤ i → s.row i = ∅

theorem confined_empty (count : Nat) : (empty count).Confined :=
  fun i _ => row_empty count i

theorem Confined.link {s : Schema} (h : s.Confined) (a : LabelId) (entry : SchemaLink) :
    (s.link a entry).Confined := by
  intro i hi
  have hne : a.index ≠ i := (lt_of_lt_of_le a.index_lt hi).ne
  rw [row, Schema.link, Array.getElem?_modify, if_neg hne]
  exact h i hi

theorem Confined.record {s grown : Schema} (h : s.Confined) {a b : LabelId}
    {edgeType : EdgeTypeId} (hrecord : s.record a b edgeType = .ok grown) : grown.Confined := by
  rw [Schema.record] at hrecord
  split at hrecord
  · cases hrecord
  · cases hrecord
    exact (h.link a ⟨b, edgeType⟩).link b ⟨a, edgeType⟩

theorem Confined.scanNode {g : Network} {s grown : Schema} (h : s.Confined) {node : NodeId}
    (hscan : scanNode g s node = .ok grown) : grown.Confined := by
  obtain ⟨labels, -, hscan⟩ := ok_of_bind hscan
  refine foldlM_preserves (fun next s grown hstep hs => ?_) hscan h
  obtain ⟨edgeType, -, hstep⟩ := ok_of_bind hstep
  obtain ⟨neighborLabels, -, hstep⟩ := ok_of_bind hstep
  refine foldlM_preserves (fun b s grown hstep hs => ?_) (ok_of_liftM hstep) hs
  exact foldlM_preserves (fun a s grown hstep hs => hs.record hstep) hstep hs

theorem confined_of_scan {g : Network} {block : Block} {s : Schema} (h : scan g block = .ok s) :
    s.Confined := by
  obtain ⟨_, -, hscan⟩ := ok_of_bind h
  exact foldlM_preserves (fun node s grown hstep hs => hs.scanNode hstep) hscan
    (confined_empty g.labelCount)

theorem Confined.ext {s t : Schema} (hs : s.Confined) (ht : t.Confined)
    (hcount : s.labelCount = t.labelCount)
    (h : ∀ a b edgeType, s.contains a b edgeType = true ↔ t.contains a b edgeType = true) :
    s = t := by
  refine ext_row hcount fun i => ?_
  by_cases hi : i < UInt32.size
  · refine Std.ExtTreeSet.ext_mem fun link => ?_
    have hlink := h (.ofIndex i) link.label link.edgeType
    rwa [contains_iff_mem, contains_iff_mem, TypedId.index_ofIndex hi] at hlink
  · rw [hs i (Nat.le_of_not_lt hi), ht i (Nat.le_of_not_lt hi)]

variable {g h : Network} {parts parts' : Nat}

theorem confined_of_extract (hparts : parts ≠ 0) (hblocks : reserve parts Block.bytes = .ok ())
    {s : Schema} (h : extract g parts = .ok s) : s.Confined := by
  cases hfails : g.scanFailure? with
  | some failure =>
      obtain ⟨error, herror⟩ := failsWith_of_some hfails hparts hblocks
      rw [herror.extract_eq] at h
      cases h
  | none =>
      rw [extract_eq_ok_of_none hfails hparts hblocks] at h
      cases h
      have hblock : blockFailure? g ⟨0, g.nodeCount⟩ = none := blockFailure?_all.trans hfails
      exact confined_of_scan (scan_eq_ok_of_none hblock).1

theorem extract_of_reserve_eq_error {failure : Failure}
    (h : reserve g.labelCount rowBytes = .error failure) (hparts : parts ≠ 0)
    (hblocks : reserve parts Block.bytes = .ok ()) :
    extract g parts = .error (.error (failure.inTask 0)) := by
  obtain ⟨block, rest, hcut⟩ := exists_cons_partition g.nodeCount hparts
  have hscan : scan g block = .error failure := by
    rw [scan, h]
    rfl
  have hrun : runTasks (fun _ => scan g) ([] ++ block :: rest) = .error (failure.inTask 0) :=
    runTasks_eq_error (fun _ hmem => by cases hmem) hscan
  rw [extract_eq_map hparts hblocks, hcut, ← List.nil_append (block :: rest), hrun]
  rfl

/-- Networks with as many labels and the same links have the same schema, however their nodes
are cut into blocks, if there is room for one. -/
theorem extract_eq_of_links (hread : g.Readable .outgoing) (hread' : h.Readable .outgoing)
    (hbound : g.LabelsBounded) (hbound' : h.LabelsBounded) (hcount : g.labelCount = h.labelCount)
    (hlinks : ∀ a b edgeType,
      (∃ node, g.contains node = true ∧ g.LinksFrom node a b edgeType) ↔
        ∃ node, h.contains node = true ∧ h.LinksFrom node a b edgeType)
    (hparts : parts ≠ 0) (hparts' : parts' ≠ 0) (hblocks : reserve parts Block.bytes = .ok ())
    (hblocks' : reserve parts' Block.bytes = .ok ()) :
    extract g parts = extract h parts' ∧
      (reserve g.labelCount rowBytes = .ok () →
        ∃ s, ∀ reports, extract g parts reports = .ok s ∧ extract h parts' reports = .ok s) := by
  cases hroom : reserve g.labelCount rowBytes with
  | error failure =>
      refine ⟨?_, fun hrows => by cases hrows⟩
      rw [extract_of_reserve_eq_error hroom hparts hblocks,
        extract_of_reserve_eq_error (hcount ▸ hroom) hparts' hblocks']
  | ok _ =>
      obtain ⟨s, hs, hscount, hslinks⟩ := extract_eq_ok hread hbound hroom hparts hblocks
      obtain ⟨t, ht, htcount, htlinks⟩ :=
        extract_eq_ok hread' hbound' (hcount ▸ hroom) hparts' hblocks'
      have hsame : s = t := by
        refine Confined.ext (confined_of_extract hparts hblocks (hs .lowest))
          (confined_of_extract hparts' hblocks' (ht .lowest))
          (hscount.trans (hcount.trans htcount.symm)) fun a b edgeType => ?_
        rw [hslinks, htlinks, hlinks]
      subst hsame
      exact ⟨(hs .lowest).trans (ht .lowest).symm, fun _ => ⟨s, fun reports =>
        ⟨hs reports, ht reports⟩⟩⟩

end Schema

/-! ## Renamed graphs -/

/-- A function that takes the nodes of a graph one to one to those of another, with their labels
and their edges. -/
structure Graph.Renames (f : NodeId → NodeId) (g h : Graph) : Prop where
  bijective : Set.BijOn f {node | g.network.contains node = true}
    {node | h.network.contains node = true}
  labels : ∀ node, g.network.contains node = true →
    ∀ label, label ∈ g.labels node ↔ label ∈ h.labels (f node)
  edges : ∀ src dst, g.network.contains src = true → g.network.contains dst = true →
    ∀ edgeType, (⟨src, dst⟩, edgeType) ∈ g.edges ↔ (⟨f src, f dst⟩, edgeType) ∈ h.edges

/-- Two lists without repetitions hold the same members, under a function that is one to one
where they are. -/
theorem perm_map_of_bijOn {α β : Type} {f : α → β} {s : Set α} {t : Set β} (hf : Set.BijOn f s t)
    {list : List α} {others : List β} (hlist : list.Nodup) (hothers : others.Nodup)
    (hs : ∀ a ∈ list, a ∈ s) (ht : ∀ b ∈ others, b ∈ t)
    (hmem : ∀ a ∈ s, f a ∈ others ↔ a ∈ list) : (list.map f).Perm others := by
  have hinjective : (list.map f).Nodup :=
    hlist.map_on fun a ha b hb heq => hf.injOn (hs a ha) (hs b hb) heq
  refine (List.perm_ext_iff_of_nodup hinjective hothers).mpr fun b => ?_
  rw [List.mem_map]
  constructor
  · intro hb
    obtain ⟨a, ha, rfl⟩ := hb
    exact (hmem a (hs a ha)).mpr ha
  · intro hb
    obtain ⟨a, ha, rfl⟩ := hf.surjOn (ht b hb)
    exact ⟨a, (hmem a ha).mp hb, rfl⟩

namespace GraphBuilder

variable {b c : GraphBuilder} {additions others : List Addition}

theorem Records.contains_of_mem_edges (h : b.Records additions) (hends : b.Consistent) {arc : Arc}
    {edgeType : EdgeTypeId} (hedge : (arc, edgeType) ∈ b.build.edges) :
    b.build.network.contains arc.src = true ∧ b.build.network.contains arc.dst = true := by
  have hmem := ((h.freezes hends).mem_edges arc edgeType).mp hedge
  have harc := hends.ends arc (h.mem_arcs.mpr (List.mem_map_of_mem hmem))
  exact ⟨contains_build_iff.mpr harc.1, contains_build_iff.mpr harc.2⟩

theorem Records.mem_neighbors_iff (h : b.Records additions) (hends : b.Consistent)
    {node next : NodeId} {direction : Direction} :
    next ∈ b.build.neighbors node direction ↔
      (direction ≠ .incoming ∧ ∃ edgeType, (⟨node, next⟩, edgeType) ∈ b.build.edges) ∨
        direction ≠ .outgoing ∧ ∃ edgeType, (⟨next, node⟩, edgeType) ∈ b.build.edges := by
  have hfreezes := h.freezes hends
  rw [← hfreezes.mem_arcs, ← hfreezes.mem_arcs]
  cases direction with
  | outgoing => simp [(hfreezes.outgoing node).2]
  | incoming => simp [(hfreezes.incoming node).2]
  | both => simp [(hfreezes.both node).2]

theorem Records.edgeType_eq_ok_iff (h : b.Records additions) (hends : b.Consistent)
    {src dst : NodeId} {edgeType : EdgeTypeId} : b.build.edgeType src dst = .ok edgeType ↔
      (⟨src, dst⟩, edgeType) ∈ b.build.edges ∨ (⟨dst, src⟩, edgeType) ∈ b.build.edges := by
  have hfreezes := h.freezes hends
  rw [h.edgeType_eq_ok, hfreezes.mem_edges, hfreezes.mem_edges]

theorem Records.nodup_nodesFrom (h : b.Records additions) :
    (Network.nodesFrom 0 b.build.network.nodeCount).Nodup :=
  (Network.increasing_nodesFrom h.nodeCount_le).nodup

section

variable (hb : b.Records additions) (hbends : b.Consistent) (hc : c.Records others)
  (hcends : c.Consistent) {f : NodeId → NodeId} (h : Graph.Renames f b.build c.build)
include hb hbends hc hcends h

theorem mem_neighbors_renamed {node next : NodeId}
    (hnode : b.build.network.contains node = true) (hnext : b.build.network.contains next = true)
    (direction : Direction) :
    f next ∈ c.build.neighbors (f node) direction ↔ next ∈ b.build.neighbors node direction := by
  rw [hc.mem_neighbors_iff hcends, hb.mem_neighbors_iff hbends]
  simp only [h.edges node next hnode hnext, h.edges next node hnext hnode]

theorem edgeType_renamed {node next : NodeId} (hnode : b.build.network.contains node = true)
    (hnext : b.build.network.contains next = true) {edgeType : EdgeTypeId} :
    c.build.edgeType (f node) (f next) = .ok edgeType ↔
      b.build.edgeType node next = .ok edgeType := by
  rw [hc.edgeType_eq_ok_iff hcends, hb.edgeType_eq_ok_iff hbends, h.edges node next hnode hnext,
    h.edges next node hnext hnode]

/-- Built graphs of which one renames the other are renamed networks in every direction. -/
theorem renames_network (direction : Direction) :
    b.build.network.Renames f c.build.network direction where
  nodes := perm_map_of_bijOn h.bijective hb.nodup_nodesFrom hc.nodup_nodesFrom
    (fun node hnode => Network.contains_iff_mem_nodesFrom.mpr hnode)
    (fun node hnode => Network.contains_iff_mem_nodesFrom.mpr hnode) fun node hnode => by
      rw [← Network.contains_iff_mem_nodesFrom, ← Network.contains_iff_mem_nodesFrom]
      exact iff_of_true (h.bijective.mapsTo hnode) hnode
  injective := h.bijective.injOn
  closed := fun node next hnext => contains_of_mem_neighbors hbends hnext
  neighbors := fun node hnode =>
    perm_map_of_bijOn h.bijective ((hb.distinct direction).neighbors node)
      ((hc.distinct direction).neighbors (f node))
      (fun next hnext => contains_of_mem_neighbors hbends hnext)
      (fun next hnext => contains_of_mem_neighbors hcends hnext)
      fun next hnext => mem_neighbors_renamed hb hbends hc hcends h hnode hnext direction
  labels := fun node hnode =>
    List.Pairwise.eq_of_mem_iff (hc.increasing_labels (f node)) (hb.increasing_labels node)
      fun label => (h.labels node hnode label).symm
  edgeType := by
    intro node hnode next hnext
    have hcontains := contains_of_mem_neighbors hbends hnext
    obtain ⟨edgeType, htype⟩ := edgeType_of_arc (arc_of_mem_neighbors hnext)
    rw [edgeTypeOf_build htype, edgeTypeOf_build
      ((edgeType_renamed hb hbends hc hcends h hnode hcontains).mpr htype)]

theorem linked_renamed {a l : LabelId} {edgeType : EdgeTypeId} :
    (∃ src dst, (⟨src, dst⟩, edgeType) ∈ b.build.edges ∧
        (a ∈ b.build.labels src ∧ l ∈ b.build.labels dst ∨
          l ∈ b.build.labels src ∧ a ∈ b.build.labels dst)) ↔
      ∃ src dst, (⟨src, dst⟩, edgeType) ∈ c.build.edges ∧
        (a ∈ c.build.labels src ∧ l ∈ c.build.labels dst ∨
          l ∈ c.build.labels src ∧ a ∈ c.build.labels dst) := by
  constructor
  · intro hlink
    obtain ⟨src, dst, hedge, hlabels⟩ := hlink
    obtain ⟨hsrc, hdst⟩ := hb.contains_of_mem_edges hbends hedge
    refine ⟨f src, f dst, (h.edges src dst hsrc hdst edgeType).mp hedge, ?_⟩
    simpa only [← h.labels src hsrc, ← h.labels dst hdst] using hlabels
  · intro hlink
    obtain ⟨first, second, hedge, hlabels⟩ := hlink
    obtain ⟨hfirst, hsecond⟩ := hc.contains_of_mem_edges hcends hedge
    obtain ⟨src, hsrc, rfl⟩ := h.bijective.surjOn hfirst
    obtain ⟨dst, hdst, rfl⟩ := h.bijective.surjOn hsecond
    refine ⟨src, dst, (h.edges src dst hsrc hdst edgeType).mpr hedge, ?_⟩
    simpa only [h.labels src hsrc, h.labels dst hdst] using hlabels

end

end GraphBuilder

/-- No result for which nothing is skipped tells two graphs apart: neither what a request
observes, for any seeds, nor the schema, for any numbers of blocks. -/
structure Graph.Indistinguishable (f : NodeId → NodeId) (g h : Graph) : Prop where
  occurrences : ∀ (direction : Direction) (seed seed' : UInt64) (reports reports' : Reporting)
    (settings : SearchSettings) (request : Request), settings.validate = .ok () →
      Trace.reserve settings.maxLength = .ok () → Double.value? settings.nodeSkip = some 0 →
      Double.value? settings.edgeSkip = some 0 →
      Enumerator.Knows { network := g.network, direction, seed } request →
      (∀ range, request ≠ .wholeGraph (some range)) →
      ∃ o, Enumerator.occurrences { network := g.network, direction, seed, reports } request
          settings = .ok o ∧
        Enumerator.occurrences
          { network := h.network, direction, seed := seed', reports := reports' }
          (request.renamed f) settings = .ok o
  schemas : g.labelCount = h.labelCount → ∀ parts parts', 1 ≤ parts → 1 ≤ parts' →
    reserve parts Block.bytes = .ok () → reserve parts' Block.bytes = .ok () →
      Schema.extract g.network parts = Schema.extract h.network parts' ∧
        (reserve g.labelCount Schema.rowBytes = .ok () → ∃ s, ∀ reports,
          Schema.extract g.network parts reports = .ok s ∧
            Schema.extract h.network parts' reports = .ok s)

/-- Built graphs of which one is the other with its nodes renamed cannot be told apart. -/
theorem GraphBuilder.indistinguishable_of_renames {calls others : List BuilderCall}
    {f : NodeId → NodeId}
    (h : Graph.Renames f (ofCalls calls).build (ofCalls others).build) :
    Graph.Indistinguishable f (ofCalls calls).build (ofCalls others).build := by
  obtain ⟨additions, -, hb⟩ := records_ofCalls calls
  obtain ⟨additions', -, hc⟩ := records_ofCalls others
  have hbends := consistent_ofCalls calls
  have hcends := consistent_ofCalls others
  constructor
  case occurrences =>
    intro direction seed seed' reports reports' settings request hvalid hroom hnode hedge hknows
      hwhole
    have hr := renames_network hb hbends hc hcends h direction
    have hskip : settings.SkipsNothing request := ⟨hedge, Or.inl hnode⟩
    have hanswer : Enumerator.CanAnswer
        { network := (ofCalls calls).build.network, direction, seed, reports } settings request :=
      ⟨hvalid, hroom, hknows, readable_build _ _, fun _ hsink => by cases hsink⟩
    have hanswer' : Enumerator.CanAnswer
        { network := (ofCalls others).build.network, direction, seed := seed', reports := reports' }
        settings (request.renamed f) :=
      ⟨hvalid, hroom, Enumerator.knows_renamed hr hknows hwhole seed', readable_build _ _,
        fun _ hsink => by cases hsink⟩
    refine ⟨_, Enumerator.occurrences_eq_ok hanswer, ?_⟩
    have hsame := Enumerator.occurrencesOf_renamed
      (e := { network := (ofCalls calls).build.network, direction, seed, reports }) hr hskip hwhole
      hknows seed'
    rw [← Enumerator.occurrencesOf_reports reports'] at hsame
    exact (Enumerator.occurrences_eq_ok hanswer').trans (congrArg Except.ok hsame)
  case schemas =>
    intro hcount parts parts' hparts hparts' hblocks hblocks'
    rw [Nat.one_le_iff_ne_zero] at hparts hparts'
    refine Schema.extract_eq_of_links (readable_build _ _) (readable_build _ _)
      (labelsBounded_build hb) (labelsBounded_build hc) hcount (fun a l edgeType => ?_)
      hparts hparts' hblocks hblocks'
    rw [hb.exists_linksFrom_iff hbends, hc.exists_linksFrom_iff hcends,
      linked_renamed hb hbends hc hcends h]

namespace GraphBuilder

/-- The two nodes of the loop graph and their edges, all of them the other way round. -/
def loopReversed : List BuilderCall :=
  [.addNodeWithLabels ⟨3⟩ [⟨2⟩, ⟨1⟩], .addNodeWithLabels ⟨7⟩ [⟨0⟩, ⟨1⟩],
    .addEdgeWithType ⟨7⟩ ⟨7⟩ ⟨4⟩, .addEdgeWithType ⟨3⟩ ⟨7⟩ ⟨5⟩, .addEdgeWithType ⟨7⟩ ⟨3⟩ ⟨5⟩]

/-- What the calls of `loopReversed` add. -/
def loopReversedAdditions : List Addition :=
  [.node ⟨3⟩ [⟨2⟩, ⟨1⟩], .node ⟨7⟩ [⟨0⟩, ⟨1⟩], .edge ⟨⟨1⟩, ⟨1⟩⟩ ⟨4⟩, .edge ⟨⟨0⟩, ⟨1⟩⟩ ⟨5⟩,
    .edge ⟨⟨1⟩, ⟨0⟩⟩ ⟨5⟩]

theorem records_loopReversed : (ofCalls loopReversed).Records loopReversedAdditions := by
  have hnodes := (records_empty.addNode ⟨3⟩ [⟨2⟩, ⟨1⟩] (by decide) (by decide) (by decide)).addNode
    ⟨7⟩ [⟨0⟩, ⟨1⟩] (by decide) (by decide) (by decide)
  have hloop := hnodes.addEdge ⟨⟨1⟩, ⟨1⟩⟩ ⟨4⟩ rfl rfl (by simp [Addition.edges])
  have hforth := hloop.addEdge ⟨⟨0⟩, ⟨1⟩⟩ ⟨5⟩ rfl rfl (by simp [Addition.edges, Arc.reverse])
  exact hforth.addEdge ⟨⟨1⟩, ⟨0⟩⟩ ⟨5⟩ rfl rfl (by simp [Addition.edges, Arc.reverse])

/-- The first node for the second and the second for the first. -/
def exchange (node : NodeId) : NodeId := if node = ⟨0⟩ then ⟨1⟩ else ⟨0⟩

theorem contains_iff_of_two {b : GraphBuilder} {additions : List Addition}
    (h : b.Records additions) (htwo : (Addition.nodes additions).length = 2) (node : NodeId) :
    b.build.network.contains node = true ↔ node = ⟨0⟩ ∨ node = ⟨1⟩ := by
  rw [contains_build_iff, h.nodeCount, htwo, ← TypedId.index_inj, ← TypedId.index_inj]
  show node.index < 2 ↔ node.index = 0 ∨ node.index = 1
  omega

theorem renames_loop :
    Graph.Renames exchange (ofCalls loop).build (ofCalls loopReversed).build := by
  have hnode := contains_iff_of_two records_loop rfl
  have hnode' := contains_iff_of_two records_loopReversed rfl
  constructor
  case bijective =>
    refine ⟨fun node hmem => (hnode' _).mpr ?_, fun node hmem other hother heq => ?_,
      fun node hmem => ?_⟩
    · rcases (hnode node).mp hmem with rfl | rfl
      · exact Or.inr rfl
      · exact Or.inl rfl
    · rcases (hnode node).mp hmem with rfl | rfl <;>
        rcases (hnode other).mp hother with rfl | rfl <;>
          first | rfl | exact absurd heq (by decide)
    · rcases (hnode' node).mp hmem with rfl | rfl
      · exact ⟨⟨1⟩, (hnode _).mpr (Or.inr rfl), rfl⟩
      · exact ⟨⟨0⟩, (hnode _).mpr (Or.inl rfl), rfl⟩
  case labels =>
    intro node hmem label
    have hfirst : (ofCalls loop).build.labels ⟨0⟩ = Rows.ascending [⟨1⟩, ⟨0⟩] :=
      records_loop.labels rfl
    have hsecond : (ofCalls loop).build.labels ⟨1⟩ = Rows.ascending [⟨1⟩, ⟨2⟩] :=
      records_loop.labels rfl
    have hfirst' : (ofCalls loopReversed).build.labels ⟨0⟩ = Rows.ascending [⟨2⟩, ⟨1⟩] :=
      records_loopReversed.labels rfl
    have hsecond' : (ofCalls loopReversed).build.labels ⟨1⟩ = Rows.ascending [⟨0⟩, ⟨1⟩] :=
      records_loopReversed.labels rfl
    rcases (hnode node).mp hmem with rfl | rfl
    · rw [hfirst, exchange, if_pos rfl, hsecond', Rows.mem_ascending, Rows.mem_ascending]
      simp [or_comm]
    · rw [hsecond, exchange, if_neg (by decide), hfirst', Rows.mem_ascending, Rows.mem_ascending]
      simp [or_comm]
  case edges =>
    have hedge := (records_loop.freezes (consistent_ofCalls _)).mem_edges
    have hedge' := (records_loopReversed.freezes (consistent_ofCalls _)).mem_edges
    intro src dst hsrc hdst edgeType
    rw [hedge, hedge']
    rcases (hnode src).mp hsrc with rfl | rfl <;> rcases (hnode dst).mp hdst with rfl | rfl <;>
      simp [loopAdditions, loopReversedAdditions, Addition.edges, exchange]

theorem labelCount_eq_three {calls : List BuilderCall} {additions : List Addition}
    (h : (ofCalls calls).Records additions)
    (hbelow : ∀ call ∈ calls, call.labelsBelow 3 = true) (node : NodeId) {external : ExternalId}
    {labels : List LabelId}
    (hnode : (Addition.nodes additions)[node.index]? = some (external, labels))
    (hlabel : ⟨2⟩ ∈ labels) : (ofCalls calls).build.labelCount = 3 := by
  have hlt := h.label_lt (h.labels hnode ▸ Rows.mem_ascending.mpr hlabel)
  exact le_antisymm (labelCount_ofCalls_le hbelow) hlt

/-- The walks along the edges of the loop graph and its schema, and the same in the graph that has
its two nodes the other way round. -/
theorem indistinguishable_of_renames_loop :
    (∃ o, Enumerator.occurrences
          { network := (ofCalls loop).build.network, direction := .outgoing, seed := 1 }
          (.pairs [(⟨0⟩, ⟨0⟩), (⟨0⟩, ⟨1⟩)]) { maxLength := 3 } = .ok o ∧
        Enumerator.occurrences
          { network := (ofCalls loopReversed).build.network, direction := .outgoing, seed := 2 }
          (.pairs [(⟨1⟩, ⟨1⟩), (⟨1⟩, ⟨0⟩)]) { maxLength := 3 } = .ok o) ∧
      ∃ s, Schema.extract (ofCalls loop).build.network 1 = .ok s ∧
        Schema.extract (ofCalls loopReversed).build.network 2 = .ok s := by
  have hsame := indistinguishable_of_renames renames_loop
  have hnode := contains_iff_of_two records_loop rfl
  have hcount : (ofCalls loop).build.labelCount = (ofCalls loopReversed).build.labelCount := by
    rw [labelCount_eq_three records_loop (by decide) ⟨1⟩ rfl (by decide),
      labelCount_eq_three records_loopReversed (by decide) ⟨0⟩ rfl (by decide)]
  constructor
  · refine hsame.occurrences .outgoing 1 2 .lowest .lowest { maxLength := 3 }
      (.pairs [(⟨0⟩, ⟨0⟩), (⟨0⟩, ⟨1⟩)]) (by decide +kernel) (by decide) Double.value?_zero
      Double.value?_zero ?_ fun range heq => by cases heq
    intro pair hpair
    rw [hnode, hnode]
    rcases List.mem_pair.mp hpair with rfl | rfl <;> decide
  · obtain ⟨-, hok⟩ := hsame.schemas hcount 1 2 (by decide) (by decide) rfl rfl
    obtain ⟨s, hs⟩ := hok (Schema.reserve_rows labelCount_loop_lt)
    exact ⟨s, hs .lowest⟩

end GraphBuilder

end Hetnet
