import Mathlib
import Hetnet.Proofs.Numerals
import Hetnet.Proofs.SchemaPaths
import Hetnet.Proofs.TwoAnswers

/-!
# Written keys are read back

Keys are written in two places, by a trace and by a schema, and neither asks the parser
whether it would take what is written. Both write through `MetaPath.ofSteps`, so it is
enough to read back what that writes: every token is the decimal form of an id, the ids at
even positions are the labels and those at odd positions the edge types. A key that
is read back says how it came about, because the labels and edge types that are read are
those of the walk, or of the path of the schema, for which the key was written.

That holds of every network, readable or not: an answer that was given was read, and
what was read is on the key. Nor does it matter where dumps go. A sink that refuses a dump
spoils the answer, and one that takes it changes nothing (`Enumerator.collect_opened`).
-/

namespace Hetnet

/-! ## Tokens as ids -/

theorem TypedId.readId?_text {kind other : Kind} (id : TypedId kind) :
    (Text.readId? id.text.toList : Option (TypedId other)) = some (.ofIndex id.index) := by
  have hread : Text.readNumber UInt32.size id.text.toList = .ok id.index := by
    rw [Text.readNumber_eq_ok_iff (by decide), TypedId.text_toList]
    exact ⟨Text.numeral_toDigits id.index, id.index_lt⟩
  rw [Text.readId?, hread]
  rfl

namespace MetaPath

theorem isCanonical_text {kind : Kind} (id : TypedId kind) :
    isCanonical id.text.toList = true := by
  rw [isCanonical, TypedId.readId?_text]
  exact decide_eq_true (by rw [TypedId.text, TypedId.index_ofIndex id.index_lt, TypedId.text])

theorem mem_tokens_ofSteps {label : LabelId} {steps : List (EdgeTypeId × LabelId)}
    {token : List Char} (h : token ∈ (ofSteps label steps).tokens) :
    isCanonical token = true := by
  rw [tokens_ofSteps] at h
  obtain ⟨text, htext, rfl⟩ := List.mem_map.mp h
  rcases List.mem_cons.mp htext with rfl | hstep
  · exact isCanonical_text label
  · obtain ⟨step, -, hmem⟩ := List.mem_flatMap.mp hstep
    rcases List.mem_pair.mp hmem with rfl | rfl
    · exact isCanonical_text step.1
    · exact isCanonical_text step.2

theorem length_tokens_ofSteps (label : LabelId) (steps : List (EdgeTypeId × LabelId)) :
    (ofSteps label steps).tokens.length = 2 * steps.length + 1 := by
  rw [tokens_ofSteps, List.length_map, List.length_cons, length_stepTokens]

theorem parse_ofSteps (label : LabelId) (steps : List (EdgeTypeId × LabelId)) :
    parse (ofSteps label steps).key = .ok (ofSteps label steps) := by
  have hall : (tokensOf (ofSteps label steps).key).all isCanonical = true :=
    List.all_eq_true.mpr fun token htoken => mem_tokens_ofSteps htoken
  have hodd : (tokensOf (ofSteps label steps).key).length % 2 = 1 := by
    have hlength := length_tokens_ofSteps label steps
    rw [tokens] at hlength
    omega
  rw [parse, if_pos (by rw [hall, hodd]; rfl)]

/-- The tokens of a key as ids, of whichever kind. -/
theorem ids_ofSteps (kind : Kind) (label : LabelId) (steps : List (EdgeTypeId × LabelId)) :
    (ofSteps label steps).ids kind = .ofIndex label.index ::
      steps.flatMap fun step => [.ofIndex step.1.index, .ofIndex step.2.index] := by
  rw [ids, tokens_ofSteps, List.filterMap_map, List.filterMap_cons]
  simp only [Function.comp_apply, TypedId.readId?_text]
  congr 1
  induction steps with
  | nil => rfl
  | cons step rest ih =>
      show (step.1.text :: step.2.text :: stepTokens rest).filterMap _ = _
      simp only [List.filterMap_cons, TypedId.readId?_text, List.flatMap_cons,
        List.cons_append, List.nil_append, ih]

theorem evens_cons_interleave {α β : Type} (a : α) (list : List β) (f g : β → α) :
    evens (a :: list.flatMap fun b => [f b, g b]) = a :: list.map g := by
  induction list generalizing a with
  | nil => rfl
  | cons b rest ih =>
      rw [List.flatMap_cons, List.map_cons, ← ih]
      rfl

theorem evens_interleave {α β : Type} (list : List β) (f g : β → α) :
    evens (list.flatMap fun b => [f b, g b]) = list.map f := by
  induction list with
  | nil => rfl
  | cons b rest ih =>
      rw [List.flatMap_cons, List.map_cons, ← ih]
      rfl

theorem labels_ofSteps (label : LabelId) (steps : List (EdgeTypeId × LabelId)) :
    (ofSteps label steps).labels = label :: steps.map Prod.snd := by
  rw [labels, ids_ofSteps, evens_cons_interleave, TypedId.ofIndex_index]
  simp only [TypedId.ofIndex_index]

theorem edgeTypes_ofSteps (label : LabelId) (steps : List (EdgeTypeId × LabelId)) :
    (ofSteps label steps).edgeTypes = steps.map Prod.fst := by
  rw [edgeTypes, ids_ofSteps, List.drop_succ_cons, List.drop_zero, evens_interleave]
  simp only [TypedId.ofIndex_index]

end MetaPath

/-! ## The length of a key -/

/-- A key that the parser takes and whose length is accepted under a bound. -/
structure MetaPath.Fits (K : MetaPath) (mode : LengthMode) (maxLength : Nat) : Prop where
  parse : MetaPath.parse K.key = .ok K
  hops : mode.accepts K.hops maxLength = true
  tokens : 3 ≤ K.tokens.length ∧ K.tokens.length ≤ 2 * maxLength + 1
  exact : mode = .exact → K.tokens.length = 2 * maxLength + 1

theorem MetaPath.fits_ofSteps {mode : LengthMode} {maxLength : Nat} (label : LabelId)
    {steps : List (EdgeTypeId × LabelId)} (hlength : maxLength ≠ 0)
    (h : mode.accepts steps.length maxLength = true) : (ofSteps label steps).Fits mode maxLength where
  parse := parse_ofSteps label steps
  hops := by
    rw [hops_ofSteps]
    exact h
  tokens := by
    have hpos : steps.length ≠ 0 := fun hzero =>
      LengthMode.not_accepts_zero hlength (hzero ▸ h)
    have hle := LengthMode.le_of_accepts h
    rw [length_tokens_ofSteps]
    omega
  exact := by
    rintro rfl
    rw [length_tokens_ofSteps, LengthMode.accepts_exact.mp h]

/-! ## Keys of walks -/

namespace Network

variable {g : Network}

/-- Labels and edge types that a network answers with along a walk: at each node one of
its labels, for each step its edge type. -/
structure AnswersAlong (g : Network) (start : NodeId) (walk : List NodeId)
    (labels : List LabelId) (edgeTypes : List EdgeTypeId) : Prop where
  labels : List.Forall₂ (fun node label => ∃ known, g.labels node = .ok known ∧ label ∈ known)
    (start :: walk) labels
  edgeTypes : List.Forall₂ (fun step edgeType => g.edgeType step.1 step.2 = .ok edgeType)
    ((start :: walk).zip walk) edgeTypes

theorem edgeTypes_of_follow {trace read : Trace} {node : NodeId} {walk : List NodeId}
    (h : g.follow trace node walk = .ok read) :
    ∀ step ∈ (node :: walk).zip walk,
      g.edgeType step.1 step.2 = .ok (g.edgeTypeOf step.1 step.2) := by
  induction walk generalizing node trace with
  | nil => exact List.forall_mem_nil _
  | cons next rest ih =>
      obtain ⟨longer, hlonger, hgoes⟩ := ok_of_bind h
      obtain ⟨edgeType, htype, -⟩ := ok_of_bind hlonger
      rw [List.zip_cons_cons, List.forall_mem_cons]
      exact ⟨edgeType_eq_edgeTypeOf ⟨edgeType, htype⟩, ih hgoes⟩

theorem labels_of_mem_choices {node : NodeId} {walk : List NodeId}
    (hread : ∀ next ∈ walk, g.labels next = .ok (g.labelsOf next))
    {steps : List (EdgeTypeId × LabelId)} (h : steps ∈ Trace.choices (g.stepsOf node walk)) :
    List.Forall₂ (fun next label => ∃ known, g.labels next = .ok known ∧ label ∈ known) walk
      (steps.map Prod.snd) := by
  induction walk generalizing node steps with
  | nil =>
      rw [List.mem_singleton.mp h]
      exact .nil
  | cons next rest ih =>
      obtain ⟨hnext, hrest⟩ := List.forall_mem_cons.mp hread
      obtain ⟨label, hlabel, h⟩ := List.mem_flatMap.mp h
      obtain ⟨more, hmore, rfl⟩ := List.mem_map.mp h
      exact .cons ⟨_, hnext, hlabel⟩ (ih hrest hmore)

theorem edgeTypes_of_mem_choices {node : NodeId} {walk : List NodeId}
    (hread : ∀ step ∈ (node :: walk).zip walk,
      g.edgeType step.1 step.2 = .ok (g.edgeTypeOf step.1 step.2))
    {steps : List (EdgeTypeId × LabelId)} (h : steps ∈ Trace.choices (g.stepsOf node walk)) :
    List.Forall₂ (fun step edgeType => g.edgeType step.1 step.2 = .ok edgeType)
      ((node :: walk).zip walk) (steps.map Prod.fst) := by
  induction walk generalizing node steps with
  | nil =>
      rw [List.mem_singleton.mp h]
      exact .nil
  | cons next rest ih =>
      rw [List.zip_cons_cons, List.forall_mem_cons] at hread
      obtain ⟨label, -, h⟩ := List.mem_flatMap.mp h
      obtain ⟨more, hmore, rfl⟩ := List.mem_map.mp h
      exact .cons hread.1 (ih hread.2 hmore)

/-- Every key that a walk stands for spells the walk. -/
theorem spells_of_mem_pathsAlong {start : NodeId} {walk : List NodeId} {K : MetaPath}
    (hlabels : ∀ node ∈ start :: walk, g.labels node = .ok (g.labelsOf node))
    (htypes : ∀ step ∈ (start :: walk).zip walk,
      g.edgeType step.1 step.2 = .ok (g.edgeTypeOf step.1 step.2))
    (h : K ∈ g.pathsAlong start walk) :
    (∃ label steps, K = MetaPath.ofSteps label steps ∧ steps.length = walk.length) ∧
      g.AnswersAlong start walk K.labels K.edgeTypes := by
  obtain ⟨hstart, hwalk⟩ := List.forall_mem_cons.mp hlabels
  obtain ⟨label, hlabel, h⟩ := List.mem_flatMap.mp h
  obtain ⟨steps, hsteps, rfl⟩ := List.mem_map.mp h
  rw [traceOf, List.reverse_reverse] at hsteps
  refine ⟨⟨label, steps, rfl, ?_⟩, ?_, ?_⟩
  · rw [Trace.length_of_mem_choices hsteps, length_stepsOf]
  · rw [MetaPath.labels_ofSteps]
    exact .cons ⟨_, hstart, hlabel⟩ (labels_of_mem_choices hwalk hsteps)
  · rw [MetaPath.edgeTypes_ofSteps]
    exact edgeTypes_of_mem_choices htypes hsteps

end Network

theorem Search.edgeTypes_of_reading {s : Search} {start : NodeId} {seed : UInt64}
    (h : s.reading start seed = .ok ()) {walk : List NodeId}
    (hwalk : walk ∈ s.recorded start seed) :
    ∀ step ∈ (start :: walk).zip walk,
      s.network.edgeType step.1 step.2 = .ok (s.network.edgeTypeOf step.1 step.2) := by
  obtain ⟨_, -, h⟩ := ok_of_bind h
  obtain ⟨labels, hlabels, h⟩ := ok_of_bind h
  obtain ⟨read, hread, -⟩ := ok_of_bind (ok_of_forM h walk (List.mem_of_mem_filter hwalk))
  exact Network.edgeTypes_of_follow hread

/-! ## Answers past a sink -/

theorem foldlM_eq_ok_of_imp {α β ε : Type} {f g : β → α → Except ε β}
    (himp : ∀ acc a result, f acc a = .ok result → g acc a = .ok result) {list : List α}
    {init result : β} (h : list.foldlM f init = .ok result) : list.foldlM g init = .ok result := by
  induction list generalizing init with
  | nil => exact h
  | cons a rest ih =>
      rw [List.foldlM_cons] at h ⊢
      obtain ⟨acc, hacc, hrest⟩ := ok_of_bind h
      exact bind_eq_ok (himp init a acc hacc) (ih hrest)

namespace Enumerator

variable {C : Type} [Collector C]

/-- The same enumerator with a sink that takes everything in the place of its sink. -/
def opened (e : Enumerator) : Enumerator := { e with sink := e.sink.map fun _ => .open }

theorem accepting_opened (e : Enumerator) :
    ∀ sink, e.opened.sink = some sink → ∀ dump, sink.takes dump = .ok () := by
  intro sink hsink dump
  obtain ⟨_, -, rfl⟩ := Option.map_eq_some_iff.mp hsink
  rfl

variable {e : Enumerator} {settings : SearchSettings} {request : Request}

theorem handOut_opened {start : NodeId} {stop : Option NodeId} {paths : MetaPathSet}
    {dumps : Array PairDump} (h : e.handOut settings start stop paths = .ok dumps) :
    e.opened.handOut settings start stop paths = .ok dumps := by
  unfold handOut opened at *
  cases hsink : e.sink with
  | none =>
      rw [hsink] at h
      exact h
  | some sink =>
      rw [hsink] at h
      cases stop with
      | none => exact h
      | some stop =>
          obtain ⟨_, -, hdumps⟩ := ok_of_bind h
          exact hdumps

theorem searchFrom_opened {start : NodeId} {stop : Option NodeId} {outcome : Outcome C}
    (h : e.searchFrom settings start stop = .ok outcome) :
    e.opened.searchFrom settings start stop = .ok outcome := by
  obtain ⟨found, hfound, h⟩ := ok_of_bind h
  obtain ⟨dumps, hdumps, h⟩ := ok_of_bind h
  exact bind_eq_ok hfound (bind_eq_ok (liftM_eq_ok (handOut_opened (ok_of_liftM hdumps))) h)

theorem searchNeighbors_opened {start : NodeId} {outcome : Outcome C}
    (h : e.searchNeighbors settings start = .ok outcome) :
    e.opened.searchNeighbors settings start = .ok outcome := by
  refine foldlM_eq_ok_of_imp (fun acc stop result hresult => ?_) h
  obtain ⟨next, hnext, hresult⟩ := ok_of_bind hresult
  exact bind_eq_ok (searchFrom_opened hnext) hresult

theorem searchPair_opened {start stop : NodeId} {outcome : Outcome C}
    (h : e.searchPair settings start stop = .ok outcome) :
    e.opened.searchPair settings start stop = .ok outcome := by
  rw [searchPair] at h
  split at h
  · next hkeeps => exact (if_pos hkeeps).trans (searchFrom_opened h)
  · next hkeeps => exact (if_neg hkeeps).trans h

/-- An answer that was given past a sink would have been given past one that takes
everything. -/
theorem collect_opened {outcome : Outcome C} (h : e.collect request settings = .ok outcome) :
    e.opened.collect request settings = .ok outcome := by
  rw [collect.eq_def] at h ⊢
  obtain ⟨_, hvalid, h⟩ := ok_of_bind h
  refine bind_eq_ok hvalid ?_
  cases request with
  | pair start stop =>
      obtain ⟨_, hstart, h⟩ := ok_of_bind h
      obtain ⟨_, hstop, h⟩ := ok_of_bind h
      exact bind_eq_ok hstart (bind_eq_ok hstop (searchFrom_opened h))
  | walksFrom start =>
      obtain ⟨_, hstart, h⟩ := ok_of_bind h
      exact bind_eq_ok hstart (searchFrom_opened h)
  | wholeGraph range =>
      obtain ⟨starts, hstarts, h⟩ := ok_of_bind h
      obtain ⟨outcomes, hrun, h⟩ := ok_of_bind h
      have hopened := runTasks_eq_ok_of_imp (fun start outcome => searchNeighbors_opened)
        (ok_of_liftM hrun)
      exact bind_eq_ok hstarts (bind_eq_ok (liftM_eq_ok hopened) h)
  | pairs list =>
      obtain ⟨_, hpairs, h⟩ := ok_of_bind h
      obtain ⟨outcomes, hrun, h⟩ := ok_of_bind h
      have hopened := runTasks_eq_ok_of_imp (fun pair outcome => searchPair_opened)
        (ok_of_liftM hrun)
      exact bind_eq_ok hpairs (bind_eq_ok (liftM_eq_ok hopened) h)

/-- What is answered was read, and consists of the paths of the recorded walks. -/
theorem collector_of_collect [LawfulCollector C] {outcome : Outcome C}
    (h : e.collect request settings = .ok outcome) :
    e.reading settings request = .ok () ∧
      outcome.collector = Collector.ofPaths C (e.pathsOf (e.walksOf settings request)) := by
  have hopened := collect_opened h
  rw [collect_eq_reading e.accepting_opened, opened, reading_sink] at hopened
  cases hreading : e.reading settings request with
  | error failure =>
      rw [hreading] at hopened
      cases hopened
  | ok _ =>
      rw [hreading] at hopened
      refine ⟨rfl, ?_⟩
      rw [← walksOf_sink (e.sink.map fun _ => .open)]
      exact (congrArg Outcome.collector (Except.ok.inj hopened)).symm

theorem edgeTypes_of_reading (h : e.reading settings request = .ok ()) {start : NodeId}
    {walk : List NodeId} (hwalk : (start, walk) ∈ e.walksOf settings request) :
    ∀ step ∈ (start :: walk).zip walk,
      e.network.edgeType step.1 step.2 = .ok (e.network.edgeTypeOf step.1 step.2) := by
  obtain ⟨ends, hends, hwalk⟩ := List.mem_flatMap.mp hwalk
  obtain ⟨recorded, hrecorded, heq⟩ := List.mem_map.mp hwalk
  cases heq
  exact Search.edgeTypes_of_reading (readingOf_of_reading h ends hends) hrecorded

theorem maxLength_ne_zero_of_reading (h : e.reading settings request = .ok ()) :
    settings.maxLength ≠ 0 := by
  obtain ⟨_, hadmits, -⟩ := ok_of_bind h
  obtain ⟨_, hvalid, -⟩ := ok_of_bind (ok_of_liftM hadmits)
  exact (SearchSettings.validate_eq_ok.mp hvalid).1

end Enumerator

/-! ## The three lists of keys -/

/-- A key that a request writes for some walk that it records, and that spells every walk
for which it is written. -/
structure Enumerator.Writes (e : Enumerator) (settings : SearchSettings) (request : Request)
    (K : MetaPath) : Prop where
  fits : K.Fits settings.mode settings.maxLength
  recorded : ∃ start walk, (start, walk) ∈ e.walksOf settings request ∧
    K ∈ e.network.pathsAlong start walk
  spells : ∀ start walk, (start, walk) ∈ e.walksOf settings request →
    K ∈ e.network.pathsAlong start walk →
      e.network.Joined e.direction start walk ∧
        e.network.AnswersAlong start walk K.labels K.edgeTypes

theorem Enumerator.writes_of_reading {e : Enumerator} {settings : SearchSettings}
    {request : Request} (h : e.reading settings request = .ok ()) {K : MetaPath}
    (hK : K ∈ e.pathsOf (e.walksOf settings request)) : e.Writes settings request K := by
  have hspells : ∀ start walk, (start, walk) ∈ e.walksOf settings request →
      K ∈ e.network.pathsAlong start walk →
        (∃ label steps, K = MetaPath.ofSteps label steps ∧ steps.length = walk.length) ∧
          e.network.AnswersAlong start walk K.labels K.edgeTypes := fun start walk hwalk hpath =>
    Network.spells_of_mem_pathsAlong (labels_of_reading h hwalk) (edgeTypes_of_reading h hwalk)
      hpath
  obtain ⟨⟨start, walk⟩, hwalk, hpath⟩ := List.mem_flatMap.mp hK
  obtain ⟨⟨label, steps, rfl, hsteps⟩, -⟩ := hspells start walk hwalk hpath
  refine ⟨?_, ⟨start, walk, hwalk, hpath⟩, fun start walk hwalk hpath =>
    ⟨joined_of_mem_walksOf hwalk, (hspells start walk hwalk hpath).2⟩⟩
  refine MetaPath.fits_ofSteps label (maxLength_ne_zero_of_reading h) ?_
  rw [hsteps]
  exact accepts_of_mem_walksOf hwalk

/-- A key that a schema writes for a path that its links allow, and in which the labels and
edge types of that path are read. -/
structure Schema.Writes (s : Schema) (mode : LengthMode) (maxLength : Nat) (K : MetaPath) :
    Prop where
  fits : K.Fits mode maxLength
  spells : ∃ (start : LabelId) (steps : List (EdgeTypeId × LabelId)),
    start.index < s.labelCount ∧ s.Allows start steps ∧ K = MetaPath.ofSteps start steps ∧
      K.labels = start :: steps.map Prod.snd ∧ K.edgeTypes = steps.map Prod.fst

theorem Schema.writes_of_metaPaths {s : Schema} {mode : LengthMode} {maxLength : Nat}
    {paths : MetaPathSet} (h : s.metaPaths maxLength mode = .ok paths) {K : MetaPath}
    (hK : K ∈ paths) : s.Writes mode maxLength K := by
  obtain ⟨start, steps, hstart, haccepts, hallows, rfl⟩ := (mem_metaPaths_iff h).mp hK
  exact ⟨MetaPath.fits_ofSteps start (maxLength_ne_zero_of_metaPaths h) haccepts, start, steps,
    hstart, hallows, rfl, MetaPath.labels_ofSteps start steps,
    MetaPath.edgeTypes_ofSteps start steps⟩

/-- Every key that is listed, counted or derived from a schema is taken by the parser, is of a
length that was asked for, and shows the labels and edge types of what it was written for. -/
theorem keys_read_back (e : Enumerator) (settings : SearchSettings) (request : Request)
    (s : Schema) (mode : LengthMode) (maxLength : Nat) :
    (∀ r, e.enumerate request settings = .ok r →
        ∀ K ∈ r.paths, e.Writes settings request K) ∧
      (∀ o, e.occurrences request settings = .ok o →
        ∀ K ∈ o.tally, e.Writes settings request K) ∧
      ∀ paths, s.metaPaths maxLength mode = .ok paths →
        ∀ K ∈ paths, s.Writes mode maxLength K := by
  refine ⟨fun r hr K hK => ?_, fun o ho K hK => ?_, fun paths hpaths K hK =>
    Schema.writes_of_metaPaths hpaths hK⟩
  · obtain ⟨_, hanswer, hr⟩ := ok_of_bind hr
    obtain ⟨outcome, houtcome, hanswer⟩ := ok_of_bind hanswer
    cases hanswer
    cases hr
    obtain ⟨hreading, hcollector⟩ := Enumerator.collector_of_collect houtcome
    dsimp only at hK
    rw [hcollector] at hK
    exact Enumerator.writes_of_reading hreading (Enumerator.mem_pathsOf_of_mem_paths hK)
  · obtain ⟨outcome, houtcome, ho⟩ := ok_of_bind ho
    cases ho
    obtain ⟨hreading, hcollector⟩ := Enumerator.collector_of_collect houtcome
    refine Enumerator.writes_of_reading hreading (PathTally.mem_ofPaths.mp ?_)
    rw [← hcollector]
    exact hK

/-- Three labels, the first and the last of them linked. -/
def Schema.twin : Schema :=
  ⟨#[.ofList [SchemaLink.mk ⟨2⟩ ⟨0⟩], ∅, .ofList [SchemaLink.mk ⟨0⟩ ⟨0⟩]]⟩

/-- A key that is found in the network of two nodes and that a schema writes as well. -/
theorem keys_read_back_twin :
    (∃ r, Enumerator.enumerate { network := ListedNetwork.twin.network } (.walksFrom ⟨0⟩)
          { maxLength := 2 } = .ok r ∧
        ⟨"0|0|2"⟩ ∈ r.paths) ∧
      Enumerator.Writes { network := ListedNetwork.twin.network } { maxLength := 2 }
        (.walksFrom ⟨0⟩) ⟨"0|0|2"⟩ ∧
      Schema.Writes .twin .upTo 2 ⟨"0|0|2"⟩ := by
  have hanswer : Enumerator.CanAnswer { network := ListedNetwork.twin.network }
      { maxLength := 2 } (.walksFrom ⟨0⟩) :=
    ⟨by decide +kernel, by decide, rfl, ListedNetwork.readable_twin, fun _ hsink => by cases hsink⟩
  have hwritten : (⟨"0|0|2"⟩ : MetaPath) ∈
      Enumerator.pathsOf { network := ListedNetwork.twin.network }
        (Enumerator.walksOf { network := ListedNetwork.twin.network } { maxLength := 2 }
          (.walksFrom ⟨0⟩)) := by
    decide +kernel
  have hlisted := (Enumerator.mem_paths_resultOf rfl (.walksFrom ⟨0⟩) ⟨"0|0|2"⟩).mpr hwritten
  have htwo : 2 ≠ 0 := by decide
  obtain ⟨paths, hpaths, hmem⟩ := Schema.twin.metaPaths_eq_ok .upTo htwo rfl
  obtain ⟨hread, -, hschema⟩ := keys_read_back { network := ListedNetwork.twin.network }
    { maxLength := 2 } (.walksFrom ⟨0⟩) .twin .upTo 2
  have hok := Enumerator.enumerate_eq_ok hanswer
  refine ⟨⟨_, hok, hlisted⟩, hread _ hok _ hlisted, hschema paths hpaths _ ((hmem _).mpr ?_)⟩
  exact ⟨⟨0⟩, [(⟨0⟩, ⟨2⟩)], by decide, rfl, ⟨by decide +kernel, trivial⟩, by decide⟩

end Hetnet
