import Mathlib
import Hetnet.Proofs.Refusals
import Hetnet.Proofs.SchemaPaths
import Hetnet.Proofs.TargetCounts

/-!
# At one hop a schema promises nothing more

A schema forgets the nodes, so a path of several links need not have an instance: the
links may come from edges that do not meet. A single link always comes from an edge. If every
link of a schema is attested by a step in some direction (`Schema.Attested`), the search
between the ends of that step finds the path of the link, and so the converse of `Covers` holds
at one hop.

The schema of a built graph is attested by steps in both directions. A link between two labels
was recorded for an outgoing edge, in one order or the other, and the undirected view
lists this edge at both of its ends.
-/

namespace Hetnet

/-- Every link is made by a step in a direction, from a node of the network with the one label
to a node with the other. -/
def Schema.Attested (s : Schema) (g : Network) (direction : Direction) : Prop :=
  ∀ a c edgeType, s.contains a c edgeType = true →
    ∃ node, g.contains node = true ∧ ∃ next ∈ g.neighbors node direction,
      a ∈ g.labelsOf node ∧ c ∈ g.labelsOf next ∧ edgeType = g.edgeTypeOf node next

/-- A walk of one hop stands for each choice of two labels. -/
theorem Network.mem_pathsAlong_singleton {g : Network} {node next : NodeId} {a c : LabelId}
    (ha : a ∈ g.labelsOf node) (hc : c ∈ g.labelsOf next) :
    MetaPath.ofSteps a [(g.edgeTypeOf node next, c)] ∈ g.pathsAlong node [next] :=
  List.mem_flatMap.mpr ⟨a, ha, List.mem_map_of_mem
    (List.mem_flatMap.mpr ⟨c, hc, List.mem_singleton_self _⟩)⟩

theorem LengthMode.accepts_one_iff {mode : LengthMode} {hops : Nat} :
    mode.accepts hops 1 = true ↔ hops = 1 := by
  cases mode with
  | upTo => rw [accepts_upTo]; omega
  | exact => exact accepts_exact

namespace Enumerator

variable {e : Enumerator} {settings : SearchSettings}

/-- A request for the whole network that skips nothing searches along every step. -/
theorem mem_endsOf_of_step (hskip : settings.SkipsNothing (.wholeGraph none)) {node next : NodeId}
    (hnode : e.network.contains node = true)
    (hnext : next ∈ e.network.neighbors node e.direction) :
    (node, some next) ∈ e.endsOf settings (.wholeGraph none) := by
  have hstart : node ∈ e.startsOf none := Network.contains_iff_mem_nodesFrom.mp hnode
  have hnodeSkip := hskip.2.resolve_right fun hkind => by cases hkind
  have hkeeps := Sampling.keepPair_of_value? hnodeSkip e.seed node next
  exact List.mem_flatMap.mpr ⟨node, hstart,
    List.mem_map_of_mem (List.mem_filter.mpr ⟨hnext, hkeeps⟩)⟩

/-- Under a bound of one hop the search along a step records the step. -/
theorem mem_walksBetween_of_step (hlength : settings.maxLength = 1)
    (hskip : settings.SkipsNothing (.wholeGraph none)) {node next : NodeId}
    (hnext : next ∈ e.network.neighbors node e.direction) :
    (node, [next]) ∈ e.walksBetween settings (node, some next) := by
  obtain ⟨position, hposition⟩ := List.mem_iff_getElem?.mp hnext
  have hadmitted : Admitted settings (some next) [next] := by
    refine ⟨?_, fun stop hstop => ⟨hstop, List.not_mem_nil⟩⟩
    rw [hlength]
    split <;> simp
  refine List.mem_map_of_mem ((Search.listing_recorded e ?_ hskip.1 (some next) node _).mem_iff.mpr
    ⟨[position], .step hposition .stop, hadmitted⟩)
  rw [hlength]
  exact Nat.one_ne_zero

/-- A path of one link is found where the link is attested. -/
theorem mem_pathsOf_of_attested {s : Schema} (hs : s.Attested e.network e.direction)
    (hlength : settings.maxLength = 1) (hskip : settings.SkipsNothing (.wholeGraph none))
    {a c : LabelId} {edgeType : EdgeTypeId} (hlink : s.contains a c edgeType = true) :
    MetaPath.ofSteps a [(edgeType, c)] ∈
      e.pathsOf (e.walksOf settings (.wholeGraph none)) := by
  obtain ⟨node, hnode, next, hnext, ha, hc, rfl⟩ := hs a c edgeType hlink
  refine List.mem_flatMap.mpr ⟨(node, [next]), List.mem_flatMap.mpr ⟨(node, some next),
    mem_endsOf_of_step hskip hnode hnext, mem_walksBetween_of_step hlength hskip hnext⟩, ?_⟩
  exact Network.mem_pathsAlong_singleton ha hc

/-- With a schema that covers the network and is attested by it, walking the network and walking
the schema come to the same paths of one hop. -/
theorem metaPaths_eq_paths {s : Schema} (hcovers : s.Covers e.network e.direction)
    (hs : s.Attested e.network e.direction) (hlength : settings.maxLength = 1)
    (hskip : settings.SkipsNothing (.wholeGraph none)) (hlimit : settings.limit = none) :
    s.metaPaths 1 settings.mode = .ok (e.resultOf settings (.wholeGraph none)).paths := by
  have hroom : Trace.reserve settings.maxLength = .ok () := hlength ▸ rfl
  have hwithin : ∃ paths, s.metaPaths settings.maxLength settings.mode = .ok paths ∧
      ∀ K ∈ (e.resultOf settings (.wholeGraph none)).paths, K ∈ paths :=
    mem_metaPaths_of_covers hcovers (hlength ▸ Nat.one_ne_zero) hroom
  rw [hlength] at hwithin
  obtain ⟨paths, hpaths, hwithin⟩ := hwithin
  rw [hpaths]
  refine congrArg Except.ok (Std.ExtTreeSet.ext_mem fun K => ⟨fun hK => ?_, hwithin K⟩)
  obtain ⟨start, steps, -, haccepts, hallows, rfl⟩ := (Schema.mem_metaPaths_iff hpaths).mp hK
  obtain ⟨⟨edgeType, label⟩, rfl⟩ :=
    List.length_eq_one_iff.mp (LengthMode.accepts_one_iff.mp haccepts)
  exact (mem_paths_resultOf hlimit _ _).mpr (mem_pathsOf_of_attested hs hlength hskip hallows.1)

end Enumerator

/-- The links of the outgoing edges are attested by the undirected view of a built graph. -/
theorem GraphBuilder.attested_build {b : GraphBuilder} {additions : List Addition}
    (h : b.Records additions) (hends : b.Consistent) {s : Schema}
    (hlinks : ∀ a c edgeType, s.contains a c edgeType = true ↔
      ∃ node, b.build.network.contains node = true ∧
        b.build.network.LinksFrom node a c edgeType) :
    s.Attested b.build.network .both := by
  intro a c edgeType hlink
  obtain ⟨node, hnode, next, hnext, rfl, hlabels⟩ := (hlinks a c edgeType).mp hlink
  have harc : Arc.mk node next ∈ b.arcs := (mem_outgoing hends).mp hnext
  -- The edge is walked along or against its direction, as the labels were recorded.
  rcases hlabels with ⟨ha, hc⟩ | ⟨hc, ha⟩
  · exact ⟨node, hnode, next, (mem_both hends).mpr (Or.inl harc), ha, hc, rfl⟩
  · exact ⟨next, contains_of_mem_neighbors hends hnext, node,
      (mem_both hends).mpr (Or.inr harc), ha, hc, (edgeTypeOf_comm h hends harc).symm⟩

theorem SearchSettings.validate_of_skipsNothing {settings : SearchSettings}
    (hlength : settings.maxLength = 1) (hskip : settings.SkipsNothing (.wholeGraph none)) :
    settings.validate = .ok () := by
  have hnode := hskip.2.resolve_right fun hkind => by cases hkind
  rw [validate_eq_ok]
  exact ⟨hlength ▸ Nat.one_ne_zero,
    isProbability_iff.mp ⟨0, hnode, le_refl 0, zero_le_one⟩,
    isProbability_iff.mp ⟨0, hskip.1, le_refl 0, zero_le_one⟩⟩

namespace Engine

/-- The meta-paths of one hop that a built graph has, walked both ways with nothing left out, are
those that its schema allows. -/
theorem one_hop_paths_eq_schema_paths {calls : List BuilderCall} {settings : EngineSettings}
    {reports : Reporting} {e : Engine}
    (hlabels : (GraphBuilder.ofCalls calls).build.labelCount < UInt32.size)
    (hcreate : create (GraphBuilder.ofCalls calls).build.network settings reports = .ok e)
    (hblocks : reserve settings.schemaPartitions Block.bytes = .ok ())
    (hdirection : settings.direction = .both) {search : SearchSettings}
    (hlength : search.maxLength = 1) (hskip : search.SkipsNothing (.wholeGraph none))
    (hlimit : search.limit = none) :
    ∃ r, e.enumerate (.wholeGraph none) search = .ok r ∧
      e.schemaMetaPaths 1 search.mode = .ok r.paths := by
  obtain ⟨additions, -, h⟩ := GraphBuilder.records_ofCalls calls
  have hends := GraphBuilder.consistent_ofCalls calls
  obtain ⟨hsettings, hnetwork, rfl, -⟩ := create_eq_ok_iff.mp hcreate
  obtain ⟨-, hparts, -⟩ := EngineSettings.validate_eq_ok.mp hsettings
  obtain ⟨s, hs, hcount, hlinks⟩ := Schema.extract_eq_ok
    (GraphBuilder.readable_build (GraphBuilder.ofCalls calls) .outgoing)
    (GraphBuilder.labelsBounded_build h) (Schema.reserve_rows hlabels) hparts hblocks
  have hcovers : s.Covers e.network e.settings.direction := by
    rw [hnetwork]
    exact GraphBuilder.covers_build h hends hcount hlinks e.settings.direction
  have hattested : s.Attested e.network e.settings.direction := by
    rw [hnetwork, hdirection]
    exact GraphBuilder.attested_build h hends hlinks
  have hvalid := SearchSettings.validate_of_skipsNothing hlength hskip
  refine ⟨_, Enumerator.enumerate_eq_ok (canAnswer_of_built hcreate hvalid (hlength ▸ rfl) trivial),
    ?_⟩
  rw [schemaMetaPaths, schema, hnetwork, hs e.reports]
  exact Enumerator.metaPaths_eq_paths (e := e.enumerator) hcovers hattested hlength hskip hlimit

/-- Two nodes that are joined both ways and have a label in common, the first of them with a
loop, and more blocks than nodes. -/
theorem one_hop_paths_eq_schema_paths_loop :
    ∃ e r, create (GraphBuilder.ofCalls GraphBuilder.loop).build.network
        { schemaPartitions := 5, seed := 7 } = .ok e ∧
      e.enumerate (.wholeGraph none) { maxLength := 1, mode := .exact } = .ok r ∧
      e.schemaMetaPaths 1 .exact = .ok r.paths := by
  have hcreate : create (GraphBuilder.ofCalls GraphBuilder.loop).build.network
      { schemaPartitions := 5, seed := 7 } = .ok
        ⟨_, { schemaPartitions := 5, seed := 7 }, .single, .single, .lowest⟩ :=
    create_eq_ok_iff.mpr ⟨rfl, rfl, rfl, rfl, rfl, rfl⟩
  have hskip : SearchSettings.SkipsNothing { maxLength := 1, mode := .exact } (.wholeGraph none) :=
    ⟨Double.value?_zero, Or.inl Double.value?_zero⟩
  obtain ⟨r, hr, hpaths⟩ := one_hop_paths_eq_schema_paths GraphBuilder.labelCount_loop_lt hcreate
    rfl rfl rfl hskip rfl
  exact ⟨_, r, hcreate, hr, hpaths⟩

end Engine

end Hetnet
