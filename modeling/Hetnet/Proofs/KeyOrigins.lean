import Mathlib
import Hetnet.Proofs.KeyGrammar

/-!
# Where meta-paths come from

Nothing in the type of a meta-path says that its text is a key. Whoever counts its edges, reads its
labels or compares it with another relies on it all the same: edges are counted by the bars, while
labels and edge types pass over the tokens that are no ids, so the two agree on keys only
(`MetaPath.WellFormed`).

There are two kinds of origins. A meta-path is *made* if it was parsed, joined from its parts, found
by a search, or derived from a schema. A search and a schema never ask the parser, but they write
with `MetaPath.ofSteps`, and what that writes is a key. A meta-path that is *restored* from
storage is taken as it was stored, and nobody looks at the text. It is well-formed exactly if the
parser would have taken it, which a damaged or foreign text is not (`restore_unpaired`).
-/

namespace Hetnet

/-! ## Keys of answers -/

namespace Enumerator

variable {e : Enumerator} {settings : SearchSettings} {request : Request} {K : MetaPath}

theorem writes_of_enumerate {r : EnumerationResult} (h : e.enumerate request settings = .ok r)
    (hK : K ∈ r.paths) : e.Writes settings request K := by
  obtain ⟨_, hanswer, hr⟩ := ok_of_bind h
  obtain ⟨outcome, houtcome, hanswer⟩ := ok_of_bind hanswer
  cases hanswer
  cases hr
  obtain ⟨hreading, hcollector⟩ := collector_of_collect houtcome
  dsimp only at hK
  rw [hcollector] at hK
  exact writes_of_reading hreading (mem_pathsOf_of_mem_paths hK)

theorem writes_of_occurrences {o : Occurrences} (h : e.occurrences request settings = .ok o)
    (hK : K ∈ o.tally) : e.Writes settings request K := by
  obtain ⟨outcome, houtcome, ho⟩ := ok_of_bind h
  cases ho
  obtain ⟨hreading, hcollector⟩ := collector_of_collect houtcome
  dsimp only at hK
  rw [hcollector] at hK
  exact writes_of_reading hreading (PathTally.mem_ofPaths.mp hK)

end Enumerator

/-- What a single search finds, its answer given or not, is written for steps. -/
theorem Search.exists_steps_of_run {C : Type} [Collector C] [LawfulCollector C] {s : Search}
    {start : NodeId} {seed : UInt64} {found : Findings C} (h : s.run start seed = .ok found)
    {K : MetaPath} (hK : K ∈ Collector.pathSet found.collector) :
    ∃ (label : LabelId) (steps : List (EdgeTypeId × LabelId)), K = .ofSteps label steps := by
  rw [run_eq_reading] at h
  cases hreading : s.reading start seed with
  | error failure =>
      rw [hreading] at h
      cases h
  | ok _ =>
      rw [hreading] at h
      cases h
      dsimp only at hK
      rw [LawfulCollector.pathSet_ofPaths, Std.ExtTreeSet.mem_ofList, List.contains_iff_mem] at hK
      obtain ⟨walk, -, hpath⟩ := List.mem_flatMap.mp hK
      obtain ⟨label, -, hlabel⟩ := List.mem_flatMap.mp hpath
      obtain ⟨steps, -, rfl⟩ := List.mem_map.mp hlabel
      exact ⟨label, steps, rfl⟩

/-- Every path of a parsed list is the path of one of its keys. -/
theorem MetaPathSet.exists_parse_of_mem {keys : List String} {paths : MetaPathSet}
    (h : parseAll keys = .ok paths) {K : MetaPath} (hK : K ∈ paths) :
    ∃ key ∈ keys, MetaPath.parse key = .ok K := by
  -- The accumulator brings paths of its own.
  have hfold : ∀ (keys : List String) (known paths : MetaPathSet),
      keys.foldlM (fun paths key => return paths.insert (← MetaPath.parse key)) known =
          (.ok paths : Except Error MetaPathSet) →
        K ∈ paths → K ∈ known ∨ ∃ key ∈ keys, MetaPath.parse key = .ok K := by
    intro keys
    induction keys with
    | nil =>
        intro known paths hpaths hK
        cases hpaths
        exact .inl hK
    | cons key rest ih =>
        intro known paths hpaths hK
        rw [List.foldlM_cons] at hpaths
        obtain ⟨more, hmore, hrest⟩ := ok_of_bind hpaths
        obtain ⟨path, hpath, hinsert⟩ := ok_of_bind hmore
        cases hinsert
        rcases ih _ paths hrest hK with hknown | ⟨other, hother, hparse⟩
        · rcases Std.ExtTreeSet.mem_insert.mp hknown with heq | hknown
          · rw [← Std.LawfulEqOrd.eq_of_compare heq]
            exact .inr ⟨key, List.mem_cons_self, hpath⟩
          · exact .inl hknown
        · exact .inr ⟨other, List.mem_cons_of_mem _ hother, hparse⟩
  rcases hfold keys ∅ paths h hK with hempty | hkey
  · exact absurd hempty Std.ExtTreeSet.not_mem_empty
  · exact hkey

namespace MetaPath

/-! ## Well-formed meta-paths -/

/-- A meta-path whose text is a key, so that what is counted and what is read off agree. -/
structure WellFormed (p : MetaPath) : Prop where
  isKey : IsKey p.key
  hops : p.hops = p.edgeTypes.length
  labels : p.labels.length = p.edgeTypes.length + 1
  parse : MetaPath.parse p.key = .ok p

theorem wellFormed_ofSteps (start : LabelId) (steps : List (EdgeTypeId × LabelId)) :
    (ofSteps start steps).WellFormed where
  isKey := isKey_ofSteps start steps
  hops := by rw [hops_ofSteps, edgeTypes_ofSteps, List.length_map]
  labels := by
    rw [labels_ofSteps, edgeTypes_ofSteps, List.length_cons, List.length_map, List.length_map]
  parse := parse_ofSteps start steps

theorem WellFormed.exists_steps {p : MetaPath} (h : p.WellFormed) :
    ∃ (start : LabelId) (steps : List (EdgeTypeId × LabelId)), p = ofSteps start steps :=
  (exists_steps_of_parse h.parse).2

/-- What the parser gives is well-formed. -/
theorem wellFormed_of_parse {key : String} {p : MetaPath} (h : MetaPath.parse key = .ok p) :
    p.WellFormed := by
  obtain ⟨-, start, steps, rfl⟩ := exists_steps_of_parse h
  exact wellFormed_ofSteps start steps

theorem wellFormed_restore_iff {key : String} : (restore key).WellFormed ↔ IsKey key := by
  constructor
  · intro h
    exact h.isKey
  · intro h
    obtain ⟨start, steps, hsteps⟩ := h.exists_steps
    rw [restore, hsteps]
    exact wellFormed_ofSteps start steps

/-- Well-formed meta-paths with the same ids are the same. -/
theorem WellFormed.eq_of_parts {p q : MetaPath} (hp : p.WellFormed) (hq : q.WellFormed)
    (hlabels : p.labels = q.labels) (htypes : p.edgeTypes = q.edgeTypes) : p = q := by
  have hparts := ofParts_of_parse hp.parse
  rw [hlabels, htypes, ofParts_of_parse hq.parse] at hparts
  exact (Except.ok.inj hparts).symm

/-! ## Origins -/

/-- The ways in which meta-paths are made: from text, from parts, by searches and by schemas. A
search counts on its own because its paths are handed to the sink before the whole
request is answered. -/
inductive Made : MetaPath → Prop
  | parsed {key : String} {p : MetaPath} (h : MetaPath.parse key = .ok p) : Made p
  | listed {keys : List String} {paths : MetaPathSet} {p : MetaPath}
      (h : MetaPathSet.parseAll keys = .ok paths) (hp : p ∈ paths) : Made p
  | joined {labels : List LabelId} {edgeTypes : List EdgeTypeId} {p : MetaPath}
      (h : ofParts labels edgeTypes = .ok p) : Made p
  | found {C : Type} [Collector C] [LawfulCollector C] {s : Search} {start : NodeId}
      {seed : UInt64} {found : Findings C} {p : MetaPath} (h : s.run start seed = .ok found)
      (hp : p ∈ Collector.pathSet found.collector) : Made p
  | enumerated {e : Enumerator} {request : Request} {settings : SearchSettings}
      {r : EnumerationResult} {p : MetaPath} (h : e.enumerate request settings = .ok r)
      (hp : p ∈ r.paths) : Made p
  | counted {e : Enumerator} {request : Request} {settings : SearchSettings} {o : Occurrences}
      {p : MetaPath} (h : e.occurrences request settings = .ok o) (hp : p ∈ o.tally) : Made p
  | inferred {s : Schema} {maxLength : Nat} {mode : LengthMode} {paths : MetaPathSet}
      {p : MetaPath} (h : s.metaPaths maxLength mode = .ok paths) (hp : p ∈ paths) : Made p

theorem Made.wellFormed {p : MetaPath} (h : Made p) : p.WellFormed := by
  cases h with
  | parsed h => exact wellFormed_of_parse h
  | listed h hp =>
      obtain ⟨key, -, hkey⟩ := MetaPathSet.exists_parse_of_mem h hp
      exact wellFormed_of_parse hkey
  | joined h =>
      obtain ⟨start, steps, -, -, rfl⟩ := exists_steps_of_ofParts h
      exact wellFormed_ofSteps start steps
  | found h hp =>
      obtain ⟨start, steps, rfl⟩ := Search.exists_steps_of_run h hp
      exact wellFormed_ofSteps start steps
  | enumerated h hp => exact wellFormed_of_parse (Enumerator.writes_of_enumerate h hp).fits.parse
  | counted h hp => exact wellFormed_of_parse (Enumerator.writes_of_occurrences h hp).fits.parse
  | inferred h hp => exact wellFormed_of_parse (Schema.writes_of_metaPaths h hp).fits.parse

/-- The meta-paths that there are: those that were made and those that were restored. -/
inductive Obtained : MetaPath → Prop
  | made {p : MetaPath} (h : Made p) : Obtained p
  | restored (key : String) : Obtained (restore key)

/-- Whatever is made is well-formed, whatever is restored is well-formed exactly if its text is a
key, and well-formed meta-paths are as different as the ids in them. -/
theorem wellFormed_unless_restored (p q : MetaPath) (key : String) :
    (Made p → p.WellFormed) ∧
      ((restore key).WellFormed ↔ ∃ parsed, MetaPath.parse key = .ok parsed) ∧
        (p.WellFormed → q.WellFormed →
          (p = q ↔ p.labels = q.labels ∧ p.edgeTypes = q.edgeTypes)) := by
  refine ⟨Made.wellFormed, ?_, fun hp hq => ?_⟩
  · rw [wellFormed_restore_iff, parse_isOk_iff]
  · constructor
    · rintro rfl
      exact ⟨rfl, rfl⟩
    · intro h
      exact hp.eq_of_parts hq h.1 h.2

/-- A path of one hop, parsed and restored from its key, and joined from its parts. -/
theorem wellFormed_unless_restored_hop :
    WellFormed ⟨"0|7|12"⟩ ∧ (restore "0|7|12").WellFormed ∧
      ∃ p, ofParts [⟨0⟩, ⟨12⟩] [⟨7⟩] = .ok p ∧ p.WellFormed ∧ p = restore "0|7|12" := by
  have hread : MetaPath.parse "0|7|12" = .ok ⟨"0|7|12"⟩ := by decide +kernel
  have hjoined := ofParts_steps ⟨0⟩ [(⟨7⟩, ⟨12⟩)]
  obtain ⟨hparsed, -, -⟩ := wellFormed_unless_restored ⟨"0|7|12"⟩ ⟨"0|7|12"⟩ "0|7|12"
  obtain ⟨hmade, hrestored, hparts⟩ := wellFormed_unless_restored
    (ofSteps ⟨0⟩ [(⟨7⟩, ⟨12⟩)]) (restore "0|7|12") "0|7|12"
  have hrestore := hrestored.mpr ⟨_, hread⟩
  have hjoin := hmade (.joined hjoined)
  refine ⟨hparsed (.parsed hread), hrestore, _, hjoined, hjoin, ?_⟩
  refine (hparts hjoin hrestore).mpr ⟨?_, ?_⟩
  · rw [labels_ofSteps]
    decide +kernel
  · rw [edgeTypes_ofSteps]
    decide +kernel

/-- A text of two tokens, one of them no id, is restored as a meta-path of one hop and no edge
type. Its ids are those of another meta-path, and the parser refuses it. -/
theorem restore_unpaired :
    (∃ p, Obtained p ∧ ¬ p.WellFormed) ∧
      (restore "1|x").hops = 1 ∧ (restore "1|x").edgeTypes = [] ∧
        MetaPath.parse "1|x" = .error (.malformedMetaPath "1|x") ∧
          restore "1|x" ≠ restore "1" ∧ (restore "1|x").labels = (restore "1").labels ∧
            (restore "1|x").edgeTypes = (restore "1").edgeTypes := by
  have hhops : (restore "1|x").hops = 1 := by decide +kernel
  have htypes : (restore "1|x").edgeTypes = [] := by decide +kernel
  refine ⟨⟨restore "1|x", .restored _, fun h => ?_⟩, hhops, htypes, ?_, ?_, ?_, ?_⟩
  · have hagree := h.hops
    rw [hhops, htypes] at hagree
    cases hagree
  all_goals decide +kernel

end MetaPath

end Hetnet
