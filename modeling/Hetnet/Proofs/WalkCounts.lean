import Mathlib
import Hetnet.Proofs.Draws
import Hetnet.Proofs.Lengths
import Hetnet.Proofs.Listing

/-!
# What an unsampled search counts

When nothing is skipped the occurrences of a meta-path have a meaning of their own, one that
speaks of the network alone: they are the ways to walk from the start and to choose a label
at every node on the way so that the labels and the edge types in between spell the key.
A way to walk is a position in the list of neighbors at every step, and a choice a
position in the list of labels at every node, so a repetition in either list counts.

The search is a loop nest over just these positions: over neighbors on the way down
and over labels in each trace that it records. `listing_walks` and `listing_pathsAlong`
follow the two nests, and the counts are then the number of ways by `Listing`.
-/

namespace Hetnet

/-! ## The ways to walk and to choose -/

namespace Network

/-- A walk, told by the positions that it takes in the lists of neighbors and by the nodes
that it comes to. -/
inductive Walk (g : Network) (direction : Direction) :
    NodeId → List Nat → List NodeId → Prop
  | stop {node : NodeId} : Walk g direction node [] []
  | step {node next : NodeId} {position : Nat} {positions : List Nat} {nodes : List NodeId} :
      (g.neighbors node direction)[position]? = some next →
      Walk g direction next positions nodes →
      Walk g direction node (position :: positions) (next :: nodes)

/-- A choice of one label at each node that a walk comes to, told by the positions of the
labels, and the steps that it makes up together with the edge types. -/
inductive Choice (g : Network) :
    NodeId → List NodeId → List Nat → List (EdgeTypeId × LabelId) → Prop
  | stop {node : NodeId} : Choice g node [] [] []
  | step {node next : NodeId} {nodes : List NodeId} {edgeType : EdgeTypeId}
      {labels : List LabelId} {pick : Nat} {picks : List Nat} {label : LabelId}
      {steps : List (EdgeTypeId × LabelId)} :
      g.edgeType node next = .ok edgeType → g.labels next = .ok labels →
      labels[pick]? = some label → Choice g next nodes picks steps →
      Choice g node (next :: nodes) (pick :: picks) ((edgeType, label) :: steps)

/-- A choice of one label at the start and at each node that a walk comes to, and the
key that it spells. -/
inductive Spells (g : Network) (start : NodeId) (nodes : List NodeId) :
    List Nat → MetaPath → Prop
  | key {labels : List LabelId} {pick : Nat} {picks : List Nat} {label : LabelId}
      {steps : List (EdgeTypeId × LabelId)} :
      g.labels start = .ok labels → labels[pick]? = some label →
      g.Choice start nodes picks steps →
      Spells g start nodes (pick :: picks) (MetaPath.ofSteps label steps)

end Network

/-- The walks that settings admit: of a length that the mode allows, and such that a target
is reached at the end and not before. -/
structure Admitted (settings : SearchSettings) (target : Option NodeId)
    (nodes : List NodeId) : Prop where
  length : match settings.mode with
    | .upTo => 1 ≤ nodes.length ∧ nodes.length ≤ settings.maxLength
    | .exact => nodes.length = settings.maxLength
  arrival : ∀ stop, target = some stop → nodes.getLast? = some stop ∧ stop ∉ nodes.dropLast

/-- Occurrences that count the ways to walk from a start node and to choose labels. -/
structure CountsWays (o : Occurrences) (g : Network) (direction : Direction)
    (settings : SearchSettings) (start : NodeId) (target : Option NodeId) : Prop where
  counts : ∀ K, {way : List Nat × List Nat | ∃ nodes, g.Walk direction start way.1 nodes ∧
    Admitted settings target nodes ∧ g.Spells start nodes way.2 K}.encard = o.observed K
  keys : ∀ K, K ∈ o.tally ↔ ∃ positions nodes picks, g.Walk direction start positions nodes ∧
    Admitted settings target nodes ∧ g.Spells start nodes picks K
  traces : {positions | ∃ nodes, g.Walk direction start positions nodes ∧
    Admitted settings target nodes}.encard = o.traces

/-! ## The walks of a search -/

namespace Search

theorem getElem?_kept {s : Search} (hskip : Double.value? s.edgeSkip = some 0) (node : NodeId)
    (seed : UInt64) {position : Nat} {next : NodeId} :
    (∃ childSeed, (s.kept node seed)[position]? = some (next, childSeed)) ↔
      (s.network.neighbors node s.direction)[position]? = some next := by
  have hall : (s.kept node seed).map Prod.fst = s.network.neighbors node s.direction :=
    Branch.map_fst_kept hskip _ _
  rw [← hall, List.getElem?_map, Option.map_eq_some_iff]
  constructor
  · intro hway
    obtain ⟨childSeed, h⟩ := hway
    exact ⟨_, h, rfl⟩
  · intro hway
    obtain ⟨⟨_, childSeed⟩, h, rfl⟩ := hway
    exact ⟨childSeed, h⟩

/-- The walks that a visit comes to when it skips nothing, at most `remaining` steps long and
with no step beyond the target. -/
def Reaches (s : Search) (remaining : Nat) (node : NodeId) (positions : List Nat)
    (nodes : List NodeId) : Prop :=
  s.network.Walk s.direction node positions nodes ∧ nodes ≠ [] ∧ nodes.length ≤ remaining ∧
    ∀ stop, s.target = some stop → stop ∉ nodes.dropLast

theorem reaches_succ_iff {s : Search} {remaining : Nat} {node : NodeId} {positions : List Nat}
    {nodes : List NodeId} :
    s.Reaches (remaining + 1) node positions nodes ↔
      ∃ position next rest, (s.network.neighbors node s.direction)[position]? = some next ∧
        positions = position :: rest ∧
        ((rest = [] ∧ nodes = [next]) ∨
          s.target ≠ some next ∧ ∃ tail, s.Reaches remaining next rest tail ∧
            nodes = next :: tail) := by
  constructor
  · intro hway
    obtain ⟨hwalk, hne, hlength, htarget⟩ := hway
    cases hwalk with
    | stop => exact absurd rfl hne
    | @step _ next position rest tail hnext hrest =>
        refine ⟨position, next, rest, hnext, rfl, ?_⟩
        -- The walk ends at `next`, or goes on from there; then `next` is no target.
        cases hrest with
        | stop => exact Or.inl ⟨rfl, rfl⟩
        | @step _ further place places more hfurther hmore =>
            refine Or.inr ⟨fun heq => htarget next heq List.mem_cons_self, _, ⟨.step hfurther hmore,
              List.cons_ne_nil _ _, Nat.le_of_succ_le_succ hlength, ?_⟩, rfl⟩
            intro stop hstop hmem
            exact htarget stop hstop (List.mem_cons_of_mem _ hmem)
  · intro hway
    obtain ⟨position, next, rest, hnext, rfl, ⟨rfl, rfl⟩ | ⟨htarget, tail, hreach, rfl⟩⟩ := hway
    · exact ⟨.step hnext .stop, List.cons_ne_nil _ _, Nat.succ_le_succ (Nat.zero_le _),
        fun stop _ hmem => by cases hmem⟩
    · obtain ⟨hwalk, hne, hlength, hstops⟩ := hreach
      refine ⟨.step hnext hwalk, List.cons_ne_nil _ _, Nat.succ_le_succ hlength,
        fun stop hstop hmem => ?_⟩
      rw [List.dropLast_cons_of_ne_nil hne] at hmem
      rcases List.mem_cons.mp hmem with rfl | hmem
      · exact htarget hstop
      · exact hstops stop hstop hmem

/-- A visit that skips nothing comes to each walk that it can reach once for each way to
walk it. -/
theorem listing_walks {s : Search} (hskip : Double.value? s.edgeSkip = some 0)
    (remaining : Nat) (node : NodeId) (seed : UInt64) :
    Listing (s.walks remaining node seed) (s.Reaches remaining node) := by
  induction remaining generalizing node seed with
  | zero =>
      refine Listing.nil fun positions nodes hreach => hreach.2.1 ?_
      exact List.length_eq_zero_iff.mp (Nat.le_zero.mp hreach.2.2.1)
  | succ remaining ih =>
      have hbeyond : ∀ entry : NodeId × UInt64,
          Listing (if s.target = some entry.1 then []
              else (s.walks remaining entry.1 entry.2).map (entry.1 :: ·))
            fun rest nodes => s.target ≠ some entry.1 ∧
              ∃ tail, s.Reaches remaining entry.1 rest tail ∧ nodes = entry.1 :: tail := by
        intro entry
        split
        · next htarget => exact Listing.nil fun rest nodes h => h.1 htarget
        · next htarget =>
            refine ((ih entry.1 entry.2).map _).congr fun rest nodes => ?_
            rw [and_iff_right htarget]
      -- The empty way is the step to the neighbor alone, so no way beyond it is empty.
      have hentry := fun entry : NodeId × UInt64 =>
        (hbeyond entry).cons [entry.1] (i := []) fun nodes h => by
          obtain ⟨-, tail, ⟨hwalk, hne, -⟩, -⟩ := h
          cases hwalk
          exact hne rfl
      refine (Listing.flatMap_positions hentry).congr fun positions nodes => ?_
      rw [reaches_succ_iff]
      simp only [← getElem?_kept hskip node seed]
      constructor
      · intro hway
        obtain ⟨position, ⟨next, childSeed⟩, rest, hkept, hways, rfl⟩ := hway
        exact ⟨position, next, rest, ⟨childSeed, hkept⟩, rfl, hways⟩
      · intro hway
        obtain ⟨position, next, rest, ⟨childSeed, hkept⟩, rfl, hways⟩ := hway
        exact ⟨position, (next, childSeed), rest, hkept, hways, rfl⟩

theorem passes_iff_admitted {e : Enumerator} {settings : SearchSettings}
    {target : Option NodeId} {start : NodeId} {nodes : List NodeId} (hne : nodes ≠ [])
    (hbefore : ∀ stop, target = some stop → stop ∉ nodes.dropLast) :
    (e.search settings target).passes start nodes = true ↔ Admitted settings target nodes := by
  have hlast : nodes.getLast? = some (nodes.getLastD start) := by
    rw [List.getLast?_eq_some_getLast hne, List.getLastD_eq_getLast?,
      List.getLast?_eq_some_getLast hne]
    rfl
  have harrives : (e.search settings target).arrives (nodes.getLastD start) = true ↔
      ∀ stop, target = some stop → nodes.getLast? = some stop := by
    rw [hlast]
    cases target with
    | none => simp [arrives, Enumerator.search]
    | some stop => simp [arrives, Enumerator.search, eq_comm]
  rw [passes, Bool.and_eq_true, harrives]
  constructor
  · intro hway
    obtain ⟨hend, haccepts⟩ := hway
    refine ⟨?_, fun stop hstop => ⟨hend stop hstop, hbefore stop hstop⟩⟩
    have hmode : settings.mode.accepts nodes.length settings.maxLength = true := haccepts
    split
    · next hm => exact LengthMode.accepts_upTo.mp (hm ▸ hmode)
    · next hm => exact LengthMode.accepts_exact.mp (hm ▸ hmode)
  · intro hway
    obtain ⟨hlength, harrival⟩ := hway
    refine ⟨fun stop hstop => (harrival stop hstop).1, ?_⟩
    show settings.mode.accepts nodes.length settings.maxLength = true
    split at hlength
    · next hm => exact hm ▸ LengthMode.accepts_upTo.mpr hlength
    · next hm => exact hm ▸ LengthMode.accepts_exact.mpr hlength

/-- The walks that a search records when it skips nothing are the admitted ones. -/
theorem listing_recorded (e : Enumerator) {settings : SearchSettings}
    (hvalid : settings.maxLength ≠ 0) (hskip : Double.value? settings.edgeSkip = some 0)
    (target : Option NodeId) (start : NodeId) (seed : UInt64) :
    Listing ((e.search settings target).recorded start seed) fun positions nodes =>
      e.network.Walk e.direction start positions nodes ∧ Admitted settings target nodes := by
  refine ((listing_walks (s := e.search settings target) hskip settings.maxLength start
    seed).filter _).congr fun positions nodes => ?_
  constructor
  · intro hway
    obtain ⟨⟨hwalk, hne, -, hbefore⟩, hpasses⟩ := hway
    exact ⟨hwalk, (passes_iff_admitted hne hbefore).mp hpasses⟩
  · intro hway
    obtain ⟨hwalk, hadmitted⟩ := hway
    have hbounds : 1 ≤ nodes.length ∧ nodes.length ≤ settings.maxLength := by
      have hlength := hadmitted.length
      split at hlength
      · exact hlength
      · omega
    have hne : nodes ≠ [] := List.ne_nil_of_length_pos hbounds.1
    have hbefore := fun stop hstop => (hadmitted.arrival stop hstop).2
    exact ⟨⟨hwalk, hne, hbounds.2, hbefore⟩, (passes_iff_admitted hne hbefore).mpr hadmitted⟩

end Search

/-! ## The paths of a walk -/

namespace Network

variable {g : Network} {direction : Direction}

theorem listing_choices (hg : g.Readable direction) {node : NodeId} {positions : List Nat}
    {nodes : List NodeId} (hwalk : g.Walk direction node positions nodes) :
    Listing (Trace.choices (g.stepsOf node nodes)) (g.Choice node nodes) := by
  induction hwalk with
  | stop =>
      refine (Listing.singleton [] []).congr fun picks steps => ?_
      constructor
      · intro hway
        obtain ⟨rfl, rfl⟩ := hway
        exact .stop
      · intro h
        cases h
        exact ⟨rfl, rfl⟩
  | @step node next position positions nodes hnext hwalk ih =>
      have hmem := List.mem_of_getElem? hnext
      have htype := edgeType_eq_edgeTypeOf (hg.edgeType node next hmem)
      have hlabels := labels_eq_labelsOf (hg.labels_of_mem node next hmem)
      refine (Listing.flatMap_positions fun label =>
        ih.map ((g.edgeTypeOf node next, label) :: ·)).congr fun picks steps => ?_
      constructor
      · intro hway
        obtain ⟨pick, label, picks, hpick, ⟨steps, hsteps, rfl⟩, rfl⟩ := hway
        exact .step htype hlabels hpick hsteps
      · intro h
        cases h with
        | step htype' hlabels' hpick hsteps =>
            obtain rfl := Except.ok.inj (htype.symm.trans htype')
            obtain rfl := Except.ok.inj (hlabels.symm.trans hlabels')
            exact ⟨_, _, _, hpick, ⟨_, hsteps, rfl⟩, rfl⟩

theorem listing_pathsAlong (hg : g.Readable direction) {start : NodeId} {positions : List Nat}
    {nodes : List NodeId} (hstart : ∃ labels, g.labels start = .ok labels)
    (hwalk : g.Walk direction start positions nodes) :
    Listing (g.pathsAlong start nodes) (g.Spells start nodes) := by
  have hlabels := labels_eq_labelsOf hstart
  have hchoices := listing_choices hg hwalk
  rw [pathsAlong, Trace.expand, traceOf, List.reverse_reverse]
  refine (Listing.flatMap_positions fun label =>
    hchoices.map (MetaPath.ofSteps label)).congr fun picks K => ?_
  constructor
  · intro hway
    obtain ⟨pick, label, picks, hpick, ⟨steps, hsteps, rfl⟩, rfl⟩ := hway
    exact .key hlabels hpick hsteps
  · intro hway
    obtain ⟨hlabels', hpick, hsteps⟩ := hway
    obtain rfl := Except.ok.inj (hlabels.symm.trans hlabels')
    exact ⟨_, _, _, hpick, ⟨_, hsteps, rfl⟩, rfl⟩

end Network

/-! ## The count -/

namespace Enumerator

variable {e : Enumerator} {settings : SearchSettings}

/-- A request for a single search counts the ways from its start. -/
theorem countsWays_of_endsOf {request : Request} (h : e.CanAnswer settings request)
    (hskip : Double.value? settings.edgeSkip = some 0) {start : NodeId}
    {target : Option NodeId} (hends : e.endsOf settings request = [(start, target)])
    (hstart : e.network.contains start = true) :
    CountsWays (e.occurrencesOf settings request) e.network e.direction settings start target := by
  have hrecorded := Search.listing_recorded e (SearchSettings.validate_eq_ok.mp h.valid).1 hskip
    target start (Sampling.pairSeed e.seed start (target.getD start))
  have hwalks : e.walksOf settings request = e.walksBetween settings (start, target) := by
    rw [walksOf, hends, walksAmong, List.flatMap_singleton]
  have hways : Listing (e.pathsOf (e.walksOf settings request))
      fun (way : List Nat × List Nat) K => ∃ nodes, e.network.Walk e.direction start way.1 nodes ∧
        Admitted settings target nodes ∧ e.network.Spells start nodes way.2 K := by
    rw [hwalks, pathsOf_walksBetween]
    refine (hrecorded.flatMap (fun positions nodes hway => Network.listing_pathsAlong h.readable
      (h.readable.labels_of_contains start hstart) hway.1) Prod.mk
      fun i j k l heq => Prod.mk.inj heq).congr fun way K => ?_
    constructor
    · intro hway
      obtain ⟨positions, nodes, picks, ⟨hwalk, hadmitted⟩, hspells, rfl⟩ := hway
      exact ⟨nodes, hwalk, hadmitted, hspells⟩
    · intro hway
      obtain ⟨nodes, hwalk, hadmitted, hspells⟩ := hway
      exact ⟨way.1, nodes, way.2, ⟨hwalk, hadmitted⟩, hspells, rfl⟩
  refine ⟨fun K => ?_, fun K => ?_, ?_⟩
  · rw [observed_occurrencesOf]
    exact hways.count_eq_encard K
  · refine PathTally.mem_ofPaths.trans (hways.mem_iff.trans ?_)
    constructor
    · intro hway
      obtain ⟨way, nodes, h⟩ := hway
      exact ⟨way.1, nodes, way.2, h⟩
    · intro hway
      obtain ⟨positions, nodes, picks, h⟩ := hway
      exact ⟨(positions, picks), nodes, h⟩
  · have htraces : (e.occurrencesOf settings request).traces =
        (e.walksBetween settings (start, target)).length := congrArg List.length hwalks
    rw [htraces, walksBetween, List.length_map]
    exact hrecorded.length_eq_encard

/-- When no edge is skipped, the occurrences between two nodes count the ways to walk from
the first to the second, and the occurrences from a node the ways to walk from it to
anywhere. -/
theorem occurrences_count_ways (hvalid : settings.validate = .ok ())
    (hroom : Trace.reserve settings.maxLength = .ok ())
    (hskip : Double.value? settings.edgeSkip = some 0)
    (hread : e.network.Readable e.direction)
    (haccept : ∀ sink, e.sink = some sink → ∀ dump, sink.takes dump = .ok ())
    {start stop : NodeId} (hstart : e.network.contains start = true)
    (hstop : e.network.contains stop = true) :
    (∃ o, e.occurrences (.pair start stop) settings = .ok o ∧
      CountsWays o e.network e.direction settings start (some stop)) ∧
    ∃ o, e.occurrences (.walksFrom start) settings = .ok o ∧
      CountsWays o e.network e.direction settings start none := by
  have hpair : e.CanAnswer settings (.pair start stop) :=
    ⟨hvalid, hroom, ⟨hstart, hstop⟩, hread, haccept⟩
  have hfrom : e.CanAnswer settings (.walksFrom start) :=
    ⟨hvalid, hroom, hstart, hread, haccept⟩
  exact ⟨⟨_, occurrences_eq_ok hpair, countsWays_of_endsOf hpair hskip rfl hstart⟩,
    ⟨_, occurrences_eq_ok hfrom, countsWays_of_endsOf hfrom hskip rfl hstart⟩⟩

/-- The ways between the nodes of the network of two nodes, and from the first of them. -/
theorem occurrences_count_ways_twin :
    (∃ o, occurrences { network := ListedNetwork.twin.network } (.pair ⟨0⟩ ⟨1⟩)
        { maxLength := 3 } = .ok o ∧
      CountsWays o ListedNetwork.twin.network .both { maxLength := 3 } ⟨0⟩ (some ⟨1⟩)) ∧
    ∃ o, occurrences { network := ListedNetwork.twin.network } (.walksFrom ⟨0⟩)
        { maxLength := 3 } = .ok o ∧
      CountsWays o ListedNetwork.twin.network .both { maxLength := 3 } ⟨0⟩ none := by
  refine occurrences_count_ways (SearchSettings.validate_eq_ok.mpr ?_) (by decide)
    Double.value?_zero ListedNetwork.readable_twin (fun sink hsink => by cases hsink)
    (by decide) (by decide)
  decide +kernel

/-- The second node is listed twice, so one step to it can be taken in two ways. -/
example : ((occurrences { network := ListedNetwork.twin.network } (.pair ⟨0⟩ ⟨1⟩)
    { maxLength := 3 }).toOption.map fun o => o.observed ⟨"0|0|1"⟩) = some 2 := by
  decide +kernel

end Enumerator

end Hetnet
