import Mathlib
import Hetnet.Proofs.Doubles
import Hetnet.Proofs.Engines
import Hetnet.Proofs.SchemaPaths

/-!
# A built graph fails only for what it was asked

Before any work begins the settings and the nodes of a request are checked, one demand
after the other, and the first that is not met is the error (`FirstUnmet`). What is left
after that is reading, and in a built graph everything can be read: an edge type leads to
every neighbor, whichever way it is walked, and every label is in the vocabulary. So
the demands are all that can go wrong. None of them speaks of a missing edge,
of an invariant or of a task, hence no such error is ever seen.
-/

namespace Hetnet

/-! ## Demands -/

/-- What is demanded, and the error if it is not met. -/
structure Demand where
  met : Prop
  error : Error

/-- The first demand of a list that is not met has this error. -/
def FirstUnmet (demands : List Demand) (error : Error) : Prop :=
  ∃ before demand after, demands = before ++ demand :: after ∧
    (∀ earlier ∈ before, earlier.met) ∧ ¬ demand.met ∧ error = demand.error

theorem firstUnmet_cons {demand : Demand} {rest : List Demand} {error : Error} :
    FirstUnmet (demand :: rest) error ↔
      ¬ demand.met ∧ error = demand.error ∨ demand.met ∧ FirstUnmet rest error := by
  constructor
  · intro h
    obtain ⟨before, unmet, after, hlist, hbefore, hunmet, herror⟩ := h
    cases before with
    | nil =>
        cases hlist
        exact Or.inl ⟨hunmet, herror⟩
    | cons first before =>
        cases hlist
        obtain ⟨hfirst, hbefore⟩ := List.forall_mem_cons.mp hbefore
        exact Or.inr ⟨hfirst, before, unmet, after, rfl, hbefore, hunmet, herror⟩
  · intro h
    rcases h with ⟨hunmet, herror⟩ | ⟨hmet, before, unmet, after, rfl, hbefore, hunmet, herror⟩
    · exact ⟨[], demand, rest, rfl, List.forall_mem_nil _, hunmet, herror⟩
    · exact ⟨demand :: before, unmet, after, rfl, List.forall_mem_cons.mpr ⟨hmet, hbefore⟩,
        hunmet, herror⟩

theorem not_firstUnmet_nil {error : Error} : ¬ FirstUnmet [] error := by
  intro h
  obtain ⟨before, unmet, after, hlist, -⟩ := h
  cases before <;> cases hlist

theorem FirstUnmet.unique {demands : List Demand} {error other : Error}
    (h : FirstUnmet demands error) (hother : FirstUnmet demands other) : error = other := by
  induction demands with
  | nil => exact absurd h not_firstUnmet_nil
  | cons demand rest ih =>
      rw [firstUnmet_cons] at h hother
      rcases h with ⟨hunmet, rfl⟩ | ⟨hmet, h⟩
      · rcases hother with ⟨-, rfl⟩ | ⟨hmet, -⟩
        · rfl
        · exact absurd hmet hunmet
      · rcases hother with ⟨hunmet, -⟩ | ⟨-, hother⟩
        · exact absurd hmet hunmet
        · exact ih h hother

theorem FirstUnmet.exists_unmet {demands : List Demand} {error : Error}
    (h : FirstUnmet demands error) : ∃ demand ∈ demands, ¬ demand.met ∧ error = demand.error := by
  obtain ⟨before, unmet, after, rfl, -, hunmet, herror⟩ := h
  exact ⟨unmet, by simp, hunmet, herror⟩

/-- A check that passes if all demands are met, and reports the first that is not. -/
def Enforces (demands : List Demand) : Except Error Unit → Prop
  | .ok _ => ∀ demand ∈ demands, demand.met
  | .error error => FirstUnmet demands error

namespace Enforces

theorem one {demand : Demand} {check : Except Error Unit}
    (hmet : demand.met → check = .ok ()) (hunmet : ¬ demand.met → check = .error demand.error) :
    Enforces [demand] check := by
  by_cases h : demand.met
  · rw [hmet h]
    exact List.forall_mem_singleton.mpr h
  · rw [hunmet h]
    exact firstUnmet_cons.mpr (Or.inl ⟨h, rfl⟩)

theorem append {first second : List Demand} {check next : Except Error Unit}
    (h : Enforces first check) (hnext : Enforces second next) :
    Enforces (first ++ second) (check >>= fun _ => next) := by
  cases check with
  | error error =>
      obtain ⟨before, unmet, after, rfl, hbefore, hunmet, herror⟩ := h
      exact ⟨before, unmet, after ++ second, by simp, hbefore, hunmet, herror⟩
  | ok _ =>
      show Enforces _ next
      cases next with
      | error error =>
          obtain ⟨before, unmet, after, rfl, hbefore, hunmet, herror⟩ := hnext
          exact ⟨first ++ before, unmet, after, by simp, List.forall_mem_append.mpr ⟨h, hbefore⟩,
            hunmet, herror⟩
      | ok _ => exact List.forall_mem_append.mpr ⟨h, hnext⟩

theorem forM {α : Type} {step : α → Except Error Unit} {demands : α → List Demand}
    (h : ∀ a, Enforces (demands a) (step a)) (list : List α) :
    Enforces (list.flatMap demands) (list.forM step) := by
  induction list with
  | nil => exact List.forall_mem_nil _
  | cons a rest ih => exact (h a).append ih

end Enforces

/-! ## The demands of a request -/

/-- A double that denotes a number from 0 to 1; NaN and the infinities denote none. -/
def IsProbability (p : Float) : Prop := ∃ a, Double.value? p = some a ∧ 0 ≤ a ∧ a ≤ 1

theorem isProbability_iff {p : Float} : IsProbability p ↔ 0.0 ≤ p ∧ p ≤ 1.0 := by
  constructor
  · intro h
    obtain ⟨a, ha, hlow, hhigh⟩ := h
    exact ⟨(Double.le_iff_of_value? Double.value?_zero ha).mpr hlow,
      (Double.le_iff_of_value? ha Double.value?_one).mpr hhigh⟩
  · intro h
    obtain ⟨a, ha⟩ := Double.exists_value?_of_le_of_le Double.value?_zero Double.value?_one h.1 h.2
    exact ⟨a, ha, (Double.le_iff_of_value? Double.value?_zero ha).mp h.1,
      (Double.le_iff_of_value? ha Double.value?_one).mp h.2⟩

namespace SearchSettings

/-- The demand that a number be a probability. -/
def probabilityDemand (name : String) (value : Float) : Demand :=
  ⟨IsProbability value, .invalidParameter name s!"{Layout.plain.text value} is not in [0, 1]"⟩

/-- What is demanded of settings, in order. -/
def demands (s : SearchSettings) : List Demand :=
  [⟨s.maxLength ≠ 0, .noHops⟩, probabilityDemand "node_skip_probability" s.nodeSkip,
    probabilityDemand "edge_skip_probability" s.edgeSkip]

theorem enforces_checkProbability (name : String) (value : Float) :
    Enforces [probabilityDemand name value] (checkProbability name value) :=
  .one (fun h => if_pos (isProbability_iff.mp h))
    (fun h => if_neg fun hunit => h (isProbability_iff.mpr hunit))

theorem enforces_validate (s : SearchSettings) : Enforces s.demands s.validate := by
  have hlength : Enforces [⟨s.maxLength ≠ 0, .noHops⟩]
      (if s.maxLength = 0 then .error .noHops else .ok ()) :=
    .one (fun h => if_neg h) (fun h => if_pos (not_not.mp h))
  have hchecks := hlength.append
    ((enforces_checkProbability "node_skip_probability" s.nodeSkip).append
      (enforces_checkProbability "edge_skip_probability" s.edgeSkip))
  rw [validate]
  split at hchecks
  · next h => rwa [if_pos h]
  · next h => rwa [if_neg h]

end SearchSettings

namespace Enumerator

variable (e : Enumerator) (settings : SearchSettings)

/-- The demand that a node be in the network. -/
def nodeDemand (node : NodeId) : Demand := ⟨e.network.contains node = true, .unknownNode node⟩

/-- What is demanded of the nodes that a request names, start before end. -/
def requestDemands : Request → List Demand
  | .pair start stop => [e.nodeDemand start, e.nodeDemand stop]
  | .walksFrom start => [e.nodeDemand start]
  | .wholeGraph none => []
  | .wholeGraph (some (first, stop)) =>
      [⟨first.index ≤ stop.index,
        .invalidParameter "range" s!"start {first.text} is past end {stop.text}"⟩]
  | .pairs list => list.flatMap fun (start, stop) => [e.nodeDemand start, e.nodeDemand stop]

/-- All demands of a request, in the order in which they are made. -/
def demands (request : Request) : List Demand := settings.demands ++ e.requestDemands request

theorem enforces_check (node : NodeId) : Enforces [e.nodeDemand node] (e.network.check node) :=
  .one (fun h => if_pos h) (fun h => if_neg h)

theorem enforces_startNodes (range : Option (NodeId × NodeId)) :
    Enforces (e.requestDemands (.wholeGraph range)) (discard (e.startNodes range)) := by
  cases range with
  | none => exact List.forall_mem_nil _
  | some bounds =>
      refine .one (fun h => ?_) (fun h => ?_)
      · have hknows : e.Knows (.wholeGraph (some bounds)) := h
        rw [startNodes_eq_ok hknows]
        rfl
      · have hinverted : bounds.2.index < bounds.1.index := Nat.not_le.mp h
        rw [startNodes, if_pos hinverted]
        rfl

theorem enforces_admits (request : Request) :
    Enforces (e.demands settings request) (e.admits settings request) := by
  refine settings.enforces_validate.append ?_
  cases request with
  | pair start stop => exact (e.enforces_check start).append (e.enforces_check stop)
  | walksFrom start => exact e.enforces_check start
  | wholeGraph range => exact e.enforces_startNodes range
  | pairs list =>
      exact Enforces.forM (fun pair => (e.enforces_check pair.1).append (e.enforces_check pair.2))
        list

variable {e settings}

theorem knows_of_met {request : Request} (h : ∀ demand ∈ e.requestDemands request, demand.met) :
    e.Knows request := by
  cases request with
  | pair start stop =>
      exact ⟨h _ List.mem_cons_self, h _ (List.mem_cons_of_mem _ List.mem_cons_self)⟩
  | walksFrom start => exact h _ List.mem_cons_self
  | wholeGraph range =>
      cases range with
      | none => trivial
      | some bounds => exact h _ List.mem_cons_self
  | pairs list =>
      intro pair hpair
      have hin : ∀ demand ∈ [e.nodeDemand pair.1, e.nodeDemand pair.2], demand.met :=
        fun demand hdemand => h demand (List.mem_flatMap.mpr ⟨pair, hpair, hdemand⟩)
      exact ⟨hin _ List.mem_cons_self, hin _ (List.mem_cons_of_mem _ List.mem_cons_self)⟩

theorem knows_of_admits {request : Request} (h : e.admits settings request = .ok ()) :
    e.Knows request := by
  have hmet := e.enforces_admits settings request
  rw [h] at hmet
  exact knows_of_met (List.forall_mem_append.mp hmet).2

theorem canAnswer_of_admits {request : Request} (h : e.admits settings request = .ok ())
    (hroom : Trace.reserve settings.maxLength = .ok ())
    (hread : e.network.Readable e.direction)
    (haccept : ∀ sink, e.sink = some sink → ∀ dump, sink.takes dump = .ok ()) :
    e.CanAnswer settings request := by
  obtain ⟨_, hvalid, -⟩ := ok_of_bind h
  exact ⟨hvalid, hroom, knows_of_admits h, hread, haccept⟩

/-- In a network that can be read, what a request reads fails as its checks do. -/
theorem reading_eq_error_iff {request : Request}
    (hroom : Trace.reserve settings.maxLength = .ok ())
    (hread : e.network.Readable e.direction)
    (haccept : ∀ sink, e.sink = some sink → ∀ dump, sink.takes dump = .ok ())
    {failure : Failure} :
    e.reading settings request = .error failure ↔
      ∃ error, FirstUnmet (e.demands settings request) error ∧ failure = .error error := by
  have henforces := e.enforces_admits settings request
  cases hadmits : e.admits settings request with
  | error error =>
      rw [hadmits] at henforces
      rw [reading.eq_def, hadmits]
      constructor
      · intro h
        cases h
        exact ⟨error, henforces, rfl⟩
      · intro h
        obtain ⟨other, hother, rfl⟩ := h
        rw [hother.unique henforces]
        rfl
  | ok _ =>
      rw [hadmits] at henforces
      rw [reading_eq_ok (canAnswer_of_admits hadmits hroom hread haccept)]
      refine iff_of_false (fun h => by cases h) fun h => ?_
      obtain ⟨error, hunmet, -⟩ := h
      obtain ⟨demand, hdemand, hunmet, -⟩ := hunmet.exists_unmet
      exact hunmet (henforces demand hdemand)

/-- A request that fails, in listing and in counting, exactly for its first demand that is not
met; and the demands speak of the parameters and of the nodes, and of nothing else. -/
structure OnlyRefuses (e : Enumerator) (settings : SearchSettings) (request : Request) : Prop where
  enumerate : ∀ failure, e.enumerate request settings = .error failure ↔
    ∃ error, FirstUnmet (e.demands settings request) error ∧ failure = .error error
  occurrences : ∀ failure, e.occurrences request settings = .error failure ↔
    ∃ error, FirstUnmet (e.demands settings request) error ∧ failure = .error error
  refusals : ∀ error, FirstUnmet (e.demands settings request) error →
    (∃ node, error = .unknownNode node) ∨ ∃ name reason, error = .invalidParameter name reason

theorem refusal_of_mem_demands {request : Request} {demand : Demand}
    (h : demand ∈ e.demands settings request) :
    (∃ node, demand.error = .unknownNode node) ∨
      ∃ name reason, demand.error = .invalidParameter name reason := by
  have hnode : ∀ {first second : NodeId}, demand ∈ [e.nodeDemand first, e.nodeDemand second] →
      ∃ node, demand.error = .unknownNode node := by
    intro first second hin
    rcases List.mem_pair.mp hin with rfl | rfl <;> exact ⟨_, rfl⟩
  rcases List.mem_append.mp h with hsettings | hrequest
  · simp only [SearchSettings.demands, List.mem_cons, List.not_mem_nil, or_false] at hsettings
    rcases hsettings with rfl | rfl | rfl <;> exact Or.inr ⟨_, _, rfl⟩
  · cases request with
    | pair start stop => exact Or.inl (hnode hrequest)
    | walksFrom start =>
        rw [List.mem_singleton.mp hrequest]
        exact Or.inl ⟨start, rfl⟩
    | wholeGraph range =>
        cases range with
        | none => cases hrequest
        | some bounds =>
            rw [List.mem_singleton.mp hrequest]
            exact Or.inr ⟨_, _, rfl⟩
    | pairs list =>
        obtain ⟨pair, -, hpair⟩ := List.mem_flatMap.mp hrequest
        exact Or.inl (hnode hpair)

theorem enumerate_eq_error_iff {request : Request}
    (haccept : ∀ sink, e.sink = some sink → ∀ dump, sink.takes dump = .ok ())
    {failure : Failure} :
    e.enumerate request settings = .error failure ↔
      e.reading settings request = .error failure := by
  rw [enumerate_eq_reading haccept, ← failure?_eq_some, failure?_map, failure?_eq_some]

theorem occurrences_eq_error_iff {request : Request}
    (haccept : ∀ sink, e.sink = some sink → ∀ dump, sink.takes dump = .ok ())
    {failure : Failure} :
    e.occurrences request settings = .error failure ↔
      e.reading settings request = .error failure := by
  rw [occurrences_eq_reading haccept, ← failure?_eq_some, failure?_map, failure?_eq_some]

theorem onlyRefuses (hroom : Trace.reserve settings.maxLength = .ok ())
    (hread : e.network.Readable e.direction) (hsink : e.sink = none) (request : Request) :
    e.OnlyRefuses settings request := by
  have haccept := accepting_of_sink_eq_none hsink
  refine ⟨fun failure => ?_, fun failure => ?_, fun error h => ?_⟩
  · exact (enumerate_eq_error_iff haccept).trans (reading_eq_error_iff hroom hread haccept)
  · exact (occurrences_eq_error_iff haccept).trans (reading_eq_error_iff hroom hread haccept)
  · obtain ⟨demand, hdemand, -, rfl⟩ := h.exists_unmet
    exact refusal_of_mem_demands hdemand

end Enumerator

/-! ## Built graphs -/

namespace Engine

/-- An engine whose schema is there, and whose schema has meta-paths for every bound but
zero, as far as there is room for them. -/
structure SchemaReady (e : Engine) : Prop where
  schema : ∃ s, e.schema = .ok s
  metaPaths : ∀ maxLength mode, reserve (maxLength + 1) Schema.idBytes = .ok () →
    ∀ failure, e.schemaMetaPaths maxLength mode = .error failure ↔
      maxLength = 0 ∧ failure = .error .noHops

theorem schemaReady_of_built {calls : List BuilderCall} {settings : EngineSettings}
    {reports : Reporting} {e : Engine}
    (hlabels : (GraphBuilder.ofCalls calls).build.labelCount < UInt32.size)
    (hcreate : create (GraphBuilder.ofCalls calls).build.network settings reports = .ok e)
    (hblocks : reserve settings.schemaPartitions Block.bytes = .ok ()) : e.SchemaReady := by
  obtain ⟨additions, -, h⟩ := GraphBuilder.records_ofCalls calls
  obtain ⟨hsettings, hnetwork, rfl, -⟩ := create_eq_ok_iff.mp hcreate
  obtain ⟨-, hparts, -⟩ := EngineSettings.validate_eq_ok.mp hsettings
  obtain ⟨s, hs, -⟩ := Schema.extract_eq_ok
    (GraphBuilder.readable_build (GraphBuilder.ofCalls calls) .outgoing)
    (GraphBuilder.labelsBounded_build h) (Schema.reserve_rows hlabels) hparts hblocks
  have hschema : e.schema = .ok s := by
    rw [schema, hnetwork, hs e.reports]
  refine ⟨⟨s, hschema⟩, fun maxLength mode hroom failure => ?_⟩
  rw [schemaMetaPaths, hschema]
  show s.metaPaths maxLength mode = .error failure ↔ _
  by_cases hzero : maxLength = 0
  · rw [Schema.metaPaths, if_pos hzero]
    show Except.error (Failure.error .noHops) = .error failure ↔ _
    rw [Except.error.injEq, and_iff_right hzero, eq_comm]
  · obtain ⟨paths, hpaths, -⟩ := s.metaPaths_eq_ok mode hzero hroom
    rw [hpaths]
    exact iff_of_false (fun heq => by cases heq) fun heq => hzero heq.1

end Engine

/-- Whatever calls a graph was built by, and whatever is asked of it, no failure is one of
the graph's own: only requests are refused, for the first demand that they do not meet, so
no failure is ever chosen from several. The schema is there for all engine settings in order,
and so are its meta-paths. -/
theorem GraphBuilder.only_refusals_of_built (calls : List BuilderCall)
    (hlabels : (ofCalls calls).build.labelCount < UInt32.size) :
    (∀ (direction : Direction) (seed : UInt64) (reports : Reporting) (settings : SearchSettings)
      (request : Request), Trace.reserve settings.maxLength = .ok () →
        Enumerator.OnlyRefuses
          { network := (ofCalls calls).build.network, direction, seed, reports }
          settings request) ∧
    ∀ (settings : EngineSettings) (reports : Reporting), settings.validate = .ok () →
      reserve settings.schemaPartitions Block.bytes = .ok () →
        ∃ e, Engine.create (ofCalls calls).build.network settings reports = .ok e ∧
          e.SchemaReady := by
  refine ⟨fun direction seed reports settings request hroom => ?_,
    fun settings reports hvalid hblocks => ?_⟩
  · exact Enumerator.onlyRefuses hroom (readable_build _ _) rfl request
  · obtain ⟨hthreads, -, hschema⟩ := EngineSettings.validate_eq_ok.mp hvalid
    have hcreate : Engine.create (ofCalls calls).build.network settings reports =
        .ok ⟨_, settings, ⟨settings.threads, Nat.pos_of_ne_zero hthreads⟩,
          ⟨settings.schemaThreads, Nat.pos_of_ne_zero hschema⟩, reports⟩ :=
      Engine.create_eq_ok_iff.mpr ⟨hvalid, rfl, rfl, rfl, rfl, rfl⟩
    exact ⟨_, hcreate, Engine.schemaReady_of_built hlabels hcreate hblocks⟩

/-- A list of pairs on a graph of two nodes, walked against the edges, and the schema of that
graph in more blocks than there are nodes. -/
theorem GraphBuilder.only_refusals_of_built_loop :
    Enumerator.OnlyRefuses
      { network := (ofCalls loop).build.network, direction := .incoming, seed := 7 }
      { maxLength := 3, nodeSkip := 0.5 } (.pairs [(⟨0⟩, ⟨1⟩), (⟨1⟩, ⟨9⟩)]) ∧
    ∃ e, Engine.create (ofCalls loop).build.network
        { threads := 2, schemaPartitions := 5, direction := .incoming } = .ok e ∧
      e.SchemaReady :=
  have hbuilt := only_refusals_of_built loop labelCount_loop_lt
  ⟨hbuilt.1 .incoming 7 .lowest _ _ (by decide), hbuilt.2 _ .lowest rfl rfl⟩

end Hetnet
