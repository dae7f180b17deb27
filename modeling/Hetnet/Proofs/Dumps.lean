import Mathlib
import Hetnet.Proofs.Acceptance
import Hetnet.Proofs.Numerals
import Hetnet.Proofs.Refusals
import Hetnet.Proofs.RequestModes
import Hetnet.Proofs.TwoAnswers

/-!
# Every searched pair has its file

Tasks hand out their dumps side by side, so the dumps of a request reach the store in some
order, and a pair that is searched twice is dumped twice. None of this can be seen in the
store. A file name shows the two external ids of its pair, and in a built graph these
are the pair's alone; so dumps under one name are dumps of one pair, and the same dump,
because a search depends on its ends and on nothing else. Writes that either
have different names or are equal commute, and a store after writes that commute is the
same for every order (`DumpStore.writeAll_eq_of_perm`).

What a file holds is then read off any one of its writes: the paths between its ends, as a
request for that pair alone would list them.
-/

namespace Hetnet

/-! ## Stores -/

namespace DumpStore

/-- Dumps of which no two with the same name differ in their paths. -/
def Agree (dumps : List PairDump) : Prop :=
  ∀ first ∈ dumps, ∀ second ∈ dumps, first.fileName = second.fileName →
    first.paths = second.paths

theorem getElem?_write (store : DumpStore) (dump : PairDump) (name : String) :
    (store.write dump)[name]? = if dump.fileName = name then some dump.paths else store[name]? := by
  rw [write, Std.ExtTreeMap.getElem?_insert]
  simp only [Std.LawfulEqOrd.compare_eq_iff_eq]

/-- Dumps that agree can be written in any order. -/
theorem writeAll_eq_of_perm {dumps order : List PairDump} (h : order.Perm dumps)
    (hagree : Agree dumps) (store : DumpStore) : store.writeAll order = store.writeAll dumps := by
  refine (h.symm.foldl_eq' (fun first hfirst second hsecond between => ?_) store).symm
  refine Std.ExtTreeMap.ext_getElem? fun name => ?_
  simp only [getElem?_write]
  split
  · next hname =>
      split
      · next hother => rw [hagree second hsecond first hfirst (hname.trans hother.symm)]
      · rfl
  · rfl

/-- A file that was written holds what its last dump holds. -/
theorem getElem?_writeAll (store : DumpStore) (dumps : List PairDump) (name : String) :
    (store.writeAll dumps)[name]? =
      ((dumps.reverse.find? fun dump => dump.fileName = name).map (·.paths)).or store[name]? := by
  induction dumps generalizing store with
  | nil => rfl
  | cons dump rest ih =>
      rw [writeAll, List.foldl_cons]
      refine (ih (store.write dump)).trans ?_
      rw [List.reverse_cons, List.find?_append, getElem?_write, List.find?_singleton]
      cases rest.reverse.find? fun dump => dump.fileName = name with
      | some last => rfl
      | none =>
          by_cases hname : dump.fileName = name
          · simp [hname]
          · simp [hname]

theorem mem_writeAll {dumps : List PairDump} {name : String} :
    name ∈ writeAll ∅ dumps ↔ ∃ dump ∈ dumps, dump.fileName = name := by
  rw [Std.ExtTreeMap.mem_iff_isSome_getElem?, getElem?_writeAll]
  simp [List.find?_isSome]

theorem getElem?_writeAll_of_mem {dumps : List PairDump} (hagree : Agree dumps) {dump : PairDump}
    (h : dump ∈ dumps) : (writeAll ∅ dumps)[dump.fileName]? = some dump.paths := by
  have hfound : (dumps.reverse.find? fun other => other.fileName = dump.fileName).isSome :=
    List.find?_isSome.mpr ⟨dump, List.mem_reverse.mpr h, decide_eq_true rfl⟩
  obtain ⟨last, hlast⟩ := Option.isSome_iff_exists.mp hfound
  have hname : last.fileName = dump.fileName := by simpa using List.find?_some hlast
  rw [getElem?_writeAll, hlast]
  exact congrArg some
    (hagree last (List.mem_reverse.mp (List.mem_of_find?_eq_some hlast)) dump h hname)

end DumpStore

/-! ## File names -/

theorem ExternalId.text_toList (id : ExternalId) : id.text.toList = Nat.toDigits 10 id.raw.toNat := by
  show (Nat.repr id.raw.toNat).toList = _
  simp [Nat.repr]

theorem ExternalId.eq_of_text {id other : ExternalId} (h : id.text = other.text) : id = other := by
  have hnumber : id.raw.toNat = other.raw.toNat := Nat.repr_injective h
  cases id
  cases other
  exact congrArg ExternalId.mk (UInt64.toNat_inj.mp hnumber)

theorem ExternalId.underscore_not_mem_text (id : ExternalId) : '_' ∉ id.text.toList := by
  rw [text_toList]
  exact Nat.underscore_not_in_toDigits

/-- A file name shows both external ids, because the second ends at the end of the name and
the character between them is in neither. -/
theorem PairDump.ends_of_fileName {d d' : PairDump} (h : d.fileName = d'.fileName)
    (hlength : d.maxLength = d'.maxLength) (hskip : d.edgeSkip = d'.edgeSkip) :
    d.start = d'.start ∧ d.stop = d'.stop := by
  have hids : d.start.text.toList ++ '_' :: (d.stop.text.toList ++ ".txt".toList) =
      d'.start.text.toList ++ '_' :: (d'.stop.text.toList ++ ".txt".toList) := by
    unfold fileName at h
    rw [hlength, hskip] at h
    have hchars := congrArg String.toList h
    simp only [String.toList_append, List.append_assoc, List.append_cancel_left_eq] at hchars
    exact hchars
  have hrest : '_' ∉ d.stop.text.toList ++ ".txt".toList := by
    rw [List.mem_append, not_or]
    exact ⟨d.stop.underscore_not_mem_text, by decide⟩
  obtain ⟨hstart, -, hstop⟩ :=
    (List.append_cons_inj_of_notMem d.start.underscore_not_mem_text hrest).mp hids
  exact ⟨ExternalId.eq_of_text (String.toList_inj.mp hstart),
    ExternalId.eq_of_text (String.toList_inj.mp (List.append_cancel_right hstop))⟩

namespace Enumerator

variable {e : Enumerator} {settings : SearchSettings} {request : Request}

/-! ## The searched pairs -/

/-- The pairs between which a request for pairs searches; of many pairs, those that sampling
keeps. -/
def searchedPairs (e : Enumerator) (settings : SearchSettings) :
    Request → List (NodeId × NodeId)
  | .pair start stop => [(start, stop)]
  | .walksFrom _ => []
  | .wholeGraph range => (e.network.adjacentPairs e.direction range).filter fun pair =>
      e.keeps settings pair.1 pair.2
  | .pairs list => list.filter fun pair => e.keeps settings pair.1 pair.2

theorem endsOf_eq_searchedPairs (h : ∀ start, request ≠ .walksFrom start) :
    e.endsOf settings request =
      (e.searchedPairs settings request).map fun pair => (pair.1, some pair.2) := by
  cases request with
  | pair start stop => rfl
  | walksFrom start => exact absurd rfl (h start)
  | wholeGraph range =>
      rw [endsOf_wholeGraph, endsOf_pairs]
      rfl
  | pairs list => exact endsOf_pairs list

theorem contains_of_mem_searchedPairs (h : ∀ start, request ≠ .walksFrom start)
    (hneighbors : ∀ node, ∀ next ∈ e.network.neighbors node e.direction,
      e.network.contains next = true)
    (hknows : e.Knows request) {pair : NodeId × NodeId}
    (hpair : pair ∈ e.searchedPairs settings request) :
    e.network.contains pair.1 = true ∧ e.network.contains pair.2 = true := by
  have hends : (pair.1, some pair.2) ∈ e.endsOf settings request := by
    rw [endsOf_eq_searchedPairs h]
    exact List.mem_map_of_mem hpair
  obtain ⟨hstart, hstop⟩ := contains_of_mem_endsOf hneighbors hknows hends
  exact ⟨hstart, hstop pair.2 rfl⟩

/-! ## The dumps of a request -/

/-- The dump of a pair. -/
def dumpOf (e : Enumerator) (settings : SearchSettings) (pair : NodeId × NodeId) : PairDump :=
  e.dump settings pair.1 pair.2
    (Std.ExtTreeSet.ofList (e.pathsOf (e.walksBetween settings (pair.1, some pair.2))))

/-- The name of the file of a pair. -/
def fileName (e : Enumerator) (settings : SearchSettings) (pair : NodeId × NodeId) : String :=
  (e.dumpOf settings pair).fileName

/-- The same enumerator with a sink that takes everything. -/
def dumping (e : Enumerator) : Enumerator := { e with sink := some .open }

theorem accepting_dumping (e : Enumerator) :
    ∀ sink, e.dumping.sink = some sink → ∀ dump, sink.takes dump = .ok () := by
  intro sink hsink dump
  cases hsink
  rfl

theorem dumps_dumping {C : Type} [Collector C] (h : ∀ start, request ≠ .walksFrom start) :
    (e.dumping.outcomeOf settings C (e.dumping.endsOf settings request)).dumps.toList =
      (e.searchedPairs settings request).map (e.dumpOf settings) := by
  rw [outcomeOf, dumping, endsOf_sink, endsOf_eq_searchedPairs h, List.flatMap_map]
  exact List.map_eq_flatMap.symm

/-- A run that dumps has been read, and hands out one dump for each searched pair, whichever
collector its paths are for. -/
theorem dumps_of_collect {C : Type} [Collector C] [LawfulCollector C]
    (h : ∀ start, request ≠ .walksFrom start) {outcome : Outcome C}
    (hrun : e.dumping.collect request settings = .ok outcome) :
    e.reading settings request = .ok () ∧
      outcome.dumps.toList = (e.searchedPairs settings request).map (e.dumpOf settings) := by
  rw [collect_eq_reading e.accepting_dumping, dumping, reading_sink] at hrun
  cases hreading : e.reading settings request with
  | error failure =>
      rw [hreading] at hrun
      cases hrun
  | ok _ =>
      rw [hreading] at hrun
      cases hrun
      exact ⟨rfl, dumps_dumping h⟩

theorem collect_dumping {C : Type} [Collector C] [LawfulCollector C]
    (hreading : e.reading settings request = .ok ()) :
    e.dumping.collect request settings =
      .ok (e.dumping.outcomeOf settings C (e.dumping.endsOf settings request)) := by
  rw [collect_eq_reading e.accepting_dumping, dumping, reading_sink, hreading]
  rfl

theorem enumerateWithDumps_dumping (h : ∀ start, request ≠ .walksFrom start)
    (hreading : e.reading settings request = .ok ()) :
    e.dumping.enumerateWithDumps request settings =
      .ok (e.resultOf settings request,
        (e.searchedPairs settings request).map (e.dumpOf settings)) := by
  rw [enumerateWithDumps, collect_dumping hreading, ← dumps_dumping (C := MetaPathSet) h]
  cases request <;> rfl

/-! ## What a pair lists by itself -/

theorem reading_limit (limit : Option Nat) :
    e.reading { settings with limit } request = e.reading settings request := by
  cases request <;> rfl

theorem dumps_limit (limit : Option Nat) :
    (e.searchedPairs { settings with limit } request).map (e.dumpOf { settings with limit }) =
      (e.searchedPairs settings request).map (e.dumpOf settings) := by
  cases request <;> rfl

theorem enumerate_of_reading (hsink : e.sink = none)
    (hreading : e.reading settings request = .ok ()) :
    e.enumerate request settings = .ok (e.resultOf settings request) := by
  rw [enumerate_eq_reading (accepting_of_sink_eq_none hsink), hreading]
  rfl

theorem reading_pair (hreading : e.reading settings request = .ok ())
    {pair : NodeId × NodeId} (hstart : e.network.contains pair.1 = true)
    (hstop : e.network.contains pair.2 = true)
    (hends : (pair.1, some pair.2) ∈ e.endsOf settings request) :
    e.reading settings (.pair pair.1 pair.2) = .ok () := by
  have hends := readingOf_of_reading hreading _ hends
  obtain ⟨_, hadmits, -⟩ := ok_of_bind hreading
  obtain ⟨_, hvalid, -⟩ := ok_of_bind (ok_of_liftM hadmits)
  have hknows : e.Knows (.pair pair.1 pair.2) := ⟨hstart, hstop⟩
  rw [reading.eq_def, admits_eq_ok hvalid hknows]
  exact hends

theorem mem_dumpOf {pair : NodeId × NodeId} {K : MetaPath} :
    K ∈ (e.dumpOf settings pair).paths ↔
      K ∈ e.pathsOf (e.walksBetween settings (pair.1, some pair.2)) := by
  rw [dumpOf, dump, Std.ExtTreeSet.mem_ofList, List.contains_iff_mem]

theorem paths_pair (pair : NodeId × NodeId) :
    (e.resultOf { settings with limit := none } (.pair pair.1 pair.2)).paths =
      (e.dumpOf settings pair).paths := by
  refine Std.ExtTreeSet.ext_mem fun K => ?_
  rw [mem_paths_unlimited, mem_dumpOf, walksOf, endsOf, walksAmong, List.flatMap_singleton]

theorem mem_paths_iff_exists_dump (h : ∀ start, request ≠ .walksFrom start) {K : MetaPath} :
    K ∈ (e.resultOf { settings with limit := none } request).paths ↔
      ∃ pair ∈ e.searchedPairs settings request, K ∈ (e.dumpOf settings pair).paths := by
  rw [mem_paths_unlimited, walksOf, pathsOf_walksAmong, endsOf_eq_searchedPairs h,
    List.flatMap_map, List.mem_flatMap]
  simp only [mem_dumpOf]

/-! ## The files of a request -/

/-- What the dumps of a request leave in a store that was empty: a file of its own for each
searched pair, with the paths that the pair lists by itself. A limit has no part in it,
nor has the order of the writes. -/
structure FillsStore (e : Enumerator) (settings : SearchSettings) (request : Request)
    (dumps : List PairDump) : Prop where
  known : ∀ pair ∈ e.searchedPairs settings request,
    e.network.contains pair.1 = true ∧ e.network.contains pair.2 = true
  names : ∀ name, name ∈ DumpStore.writeAll ∅ dumps ↔
    ∃ pair ∈ e.searchedPairs settings request, e.fileName settings pair = name
  distinct : ∀ pair other : NodeId × NodeId,
    e.network.contains pair.1 = true ∧ e.network.contains pair.2 = true →
    e.network.contains other.1 = true ∧ e.network.contains other.2 = true →
    e.fileName settings pair = e.fileName settings other → pair = other
  files : ∀ pair ∈ e.searchedPairs settings request,
    ∃ r, e.enumerate (.pair pair.1 pair.2) { settings with limit := none } = .ok r ∧
      (DumpStore.writeAll ∅ dumps)[e.fileName settings pair]? = some r.paths
  union : ∃ r, e.enumerate request { settings with limit := none } = .ok r ∧
    ∀ K, K ∈ r.paths ↔
      ∃ (name : String) (paths : MetaPathSet),
        (DumpStore.writeAll ∅ dumps)[name]? = some paths ∧ K ∈ paths
  limits : ∀ limit, ∃ r,
    e.dumping.enumerateWithDumps request { settings with limit } = .ok (r, dumps)
  counting : ∃ outcome : Outcome PathTally,
    e.dumping.collect request settings = .ok outcome ∧ outcome.dumps.toList = dumps
  orders : ∀ order : List PairDump, order.Perm dumps →
    DumpStore.writeAll ∅ order = DumpStore.writeAll ∅ dumps

theorem fileName_dumpOf (pair : NodeId × NodeId) :
    (e.dumpOf settings pair).fileName = e.fileName settings pair :=
  rfl

/-- In a network whose nodes have external ids of their own, a file name belongs to one pair. -/
theorem eq_of_fileName
    (hexternal : ∀ node other, e.network.contains node = true → e.network.contains other = true →
      e.network.externalId node = e.network.externalId other → node = other)
    {pair other : NodeId × NodeId}
    (hpair : e.network.contains pair.1 = true ∧ e.network.contains pair.2 = true)
    (hother : e.network.contains other.1 = true ∧ e.network.contains other.2 = true)
    (h : e.fileName settings pair = e.fileName settings other) : pair = other := by
  rw [← fileName_dumpOf, ← fileName_dumpOf] at h
  have hlength : ∀ p, (e.dumpOf settings p).maxLength = settings.maxLength := fun _ => rfl
  have hskip : ∀ p, (e.dumpOf settings p).edgeSkip = settings.edgeSkip := fun _ => rfl
  obtain ⟨hstart, hstop⟩ := PairDump.ends_of_fileName h
    ((hlength pair).trans (hlength other).symm) ((hskip pair).trans (hskip other).symm)
  exact Prod.ext (hexternal _ _ hpair.1 hother.1 hstart) (hexternal _ _ hpair.2 hother.2 hstop)

theorem agree_dumpOf {pairs : List (NodeId × NodeId)}
    (hdistinct : ∀ pair ∈ pairs, ∀ other ∈ pairs,
      e.fileName settings pair = e.fileName settings other → pair = other) :
    DumpStore.Agree (pairs.map (e.dumpOf settings)) := by
  intro first hfirst second hsecond hname
  obtain ⟨pair, hpair, rfl⟩ := List.mem_map.mp hfirst
  obtain ⟨other, hother, rfl⟩ := List.mem_map.mp hsecond
  rw [fileName_dumpOf, fileName_dumpOf] at hname
  rw [hdistinct pair hpair other hother hname]

theorem mem_writeAll_dumpOf {pairs : List (NodeId × NodeId)} {name : String} :
    name ∈ DumpStore.writeAll ∅ (pairs.map (e.dumpOf settings)) ↔
      ∃ pair ∈ pairs, e.fileName settings pair = name := by
  rw [DumpStore.mem_writeAll]
  simp only [List.mem_map, exists_exists_and_eq_and, fileName_dumpOf]

theorem getElem?_writeAll_dumpOf {pairs : List (NodeId × NodeId)}
    (hdistinct : ∀ pair ∈ pairs, ∀ other ∈ pairs,
      e.fileName settings pair = e.fileName settings other → pair = other)
    {pair : NodeId × NodeId} (h : pair ∈ pairs) :
    (DumpStore.writeAll ∅ (pairs.map (e.dumpOf settings)))[e.fileName settings pair]? =
      some (e.dumpOf settings pair).paths := by
  rw [← fileName_dumpOf]
  exact DumpStore.getElem?_writeAll_of_mem (agree_dumpOf hdistinct) (List.mem_map_of_mem h)

/-- A request that was read fills the store, in a network whose nodes have external ids of
their own and which lists its nodes only. -/
theorem fillsStore_of_reading (hsink : e.sink = none)
    (hneighbors : ∀ node, ∀ next ∈ e.network.neighbors node e.direction,
      e.network.contains next = true)
    (hexternal : ∀ node other, e.network.contains node = true → e.network.contains other = true →
      e.network.externalId node = e.network.externalId other → node = other)
    (h : ∀ start, request ≠ .walksFrom start) (hreading : e.reading settings request = .ok ()) :
    e.FillsStore settings request ((e.searchedPairs settings request).map (e.dumpOf settings)) := by
  obtain ⟨_, hadmits, -⟩ := ok_of_bind hreading
  have hknown : ∀ pair ∈ e.searchedPairs settings request,
      e.network.contains pair.1 = true ∧ e.network.contains pair.2 = true := fun pair hpair =>
    contains_of_mem_searchedPairs h hneighbors (knows_of_admits (ok_of_liftM hadmits)) hpair
  have hdistinct : ∀ pair ∈ e.searchedPairs settings request,
      ∀ other ∈ e.searchedPairs settings request,
        e.fileName settings pair = e.fileName settings other → pair = other :=
    fun pair hpair other hother =>
      eq_of_fileName hexternal (hknown pair hpair) (hknown other hother)
  constructor
  case known => exact hknown
  case names => exact fun name => mem_writeAll_dumpOf
  case distinct => exact fun pair other hpair hother => eq_of_fileName hexternal hpair hother
  case files =>
    intro pair hpair
    obtain ⟨hstart, hstop⟩ := hknown pair hpair
    have hends : (pair.1, some pair.2) ∈ e.endsOf settings request := by
      rw [endsOf_eq_searchedPairs h]
      exact List.mem_map_of_mem hpair
    have hread := reading_pair hreading hstart hstop hends
    rw [← reading_limit none] at hread
    refine ⟨_, enumerate_of_reading hsink hread, ?_⟩
    rw [getElem?_writeAll_dumpOf hdistinct hpair, paths_pair]
  case union =>
    have hread := hreading
    rw [← reading_limit none] at hread
    refine ⟨_, enumerate_of_reading hsink hread, fun K => ?_⟩
    rw [mem_paths_iff_exists_dump h]
    constructor
    · intro hK
      obtain ⟨pair, hpair, hK⟩ := hK
      exact ⟨_, _, getElem?_writeAll_dumpOf hdistinct hpair, hK⟩
    · intro hK
      obtain ⟨name, paths, hstored, hK⟩ := hK
      obtain ⟨pair, hpair, rfl⟩ := mem_writeAll_dumpOf.mp
        (Std.ExtTreeMap.mem_iff_isSome_getElem?.mpr (Option.isSome_of_eq_some hstored))
      rw [getElem?_writeAll_dumpOf hdistinct hpair] at hstored
      cases hstored
      exact ⟨pair, hpair, hK⟩
  case limits =>
    intro limit
    have hread := hreading
    rw [← reading_limit limit] at hread
    exact ⟨_, by rw [enumerateWithDumps_dumping h hread, dumps_limit]⟩
  case counting => exact ⟨_, collect_dumping hreading, dumps_dumping h⟩
  case orders =>
    exact fun order hperm => DumpStore.writeAll_eq_of_perm hperm (agree_dumpOf hdistinct) ∅

end Enumerator

/-! ## Built graphs -/

theorem GraphBuilder.node_eq_of_externalId {b : GraphBuilder} {additions : List Addition}
    (h : b.Records additions) {node other : NodeId}
    (hnode : b.build.network.contains node = true)
    (hother : b.build.network.contains other = true)
    (heq : b.build.network.externalId node = b.build.network.externalId other) :
    node = other := by
  have hfirst := h.node_eq_ok_iff_externalId.mpr ⟨of_decide_eq_true hnode, heq⟩
  have hsecond := h.node_eq_ok_iff_externalId.mpr ⟨of_decide_eq_true hother, rfl⟩
  exact Except.ok.inj (hfirst.symm.trans hsecond)

/-- Whenever a request for pairs of a built graph succeeds past a sink that takes everything,
its dumps fill an empty store, in whichever order they are written. -/
theorem Enumerator.dumps_fill_store {calls : List BuilderCall} {e : Enumerator}
    (hnetwork : e.network = (GraphBuilder.ofCalls calls).build.network) (hsink : e.sink = none)
    {settings : SearchSettings} {request : Request} (h : ∀ start, request ≠ .walksFrom start)
    {r : EnumerationResult} {dumps : List PairDump}
    (hrun : e.dumping.enumerateWithDumps request settings = .ok (r, dumps)) :
    e.FillsStore settings request dumps := by
  obtain ⟨additions, -, hrecords⟩ := GraphBuilder.records_ofCalls calls
  obtain ⟨outcome, hcollect, hanswer⟩ := ok_of_bind hrun
  cases hanswer
  obtain ⟨hreading, hdumps⟩ := dumps_of_collect h hcollect
  rw [hdumps]
  refine fillsStore_of_reading hsink ?_ ?_ h hreading
  · intro node next hnext
    rw [hnetwork] at hnext ⊢
    exact GraphBuilder.contains_of_mem_neighbors (GraphBuilder.consistent_ofCalls calls) hnext
  · intro node other hnode hother heq
    rw [hnetwork] at hnode hother heq
    exact GraphBuilder.node_eq_of_externalId hrecords hnode hother heq

/-- Three searches between the two nodes of a graph, the first two of them the same, where a
single path is asked for. -/
theorem Enumerator.dumps_fill_store_loop :
    ∃ r dumps, enumerateWithDumps
        (dumping { network := (GraphBuilder.ofCalls GraphBuilder.loop).build.network })
        (.pairs [(⟨0⟩, ⟨1⟩), (⟨0⟩, ⟨1⟩), (⟨1⟩, ⟨0⟩)]) { maxLength := 2, limit := some 1 } =
          .ok (r, dumps) ∧
      dumps.length = 3 ∧
      FillsStore { network := (GraphBuilder.ofCalls GraphBuilder.loop).build.network }
        { maxLength := 2, limit := some 1 } (.pairs [(⟨0⟩, ⟨1⟩), (⟨0⟩, ⟨1⟩), (⟨1⟩, ⟨0⟩)]) dumps := by
  have hnode : ∀ node : NodeId, node.index < 2 →
      (GraphBuilder.ofCalls GraphBuilder.loop).build.network.contains node = true :=
    fun node hlt => GraphBuilder.contains_build_iff.mpr
      (GraphBuilder.records_loop.nodeCount.symm ▸ hlt)
  have hknown : ∀ pair ∈ [((⟨0⟩ : NodeId), (⟨1⟩ : NodeId)), (⟨0⟩, ⟨1⟩), (⟨1⟩, ⟨0⟩)],
      (GraphBuilder.ofCalls GraphBuilder.loop).build.network.contains pair.1 = true ∧
        (GraphBuilder.ofCalls GraphBuilder.loop).build.network.contains pair.2 = true := by
    have hbelow : ∀ pair ∈ [((⟨0⟩ : NodeId), (⟨1⟩ : NodeId)), (⟨0⟩, ⟨1⟩), (⟨1⟩, ⟨0⟩)],
        pair.1.index < 2 ∧ pair.2.index < 2 := by
      decide
    exact fun pair hpair => ⟨hnode _ (hbelow pair hpair).1, hnode _ (hbelow pair hpair).2⟩
  have hanswer : CanAnswer { network := (GraphBuilder.ofCalls GraphBuilder.loop).build.network }
      { maxLength := 2, limit := some 1 } (.pairs [(⟨0⟩, ⟨1⟩), (⟨0⟩, ⟨1⟩), (⟨1⟩, ⟨0⟩)]) :=
    ⟨by decide +kernel, by decide, hknown, GraphBuilder.readable_build _ _,
      fun _ hsink => by cases hsink⟩
  have hpairs : ∀ start, Request.pairs [(⟨0⟩, ⟨1⟩), (⟨0⟩, ⟨1⟩), (⟨1⟩, ⟨0⟩)] ≠ .walksFrom start :=
    fun start heq => by cases heq
  have hrun := enumerateWithDumps_dumping hpairs (reading_eq_ok hanswer)
  refine ⟨_, _, hrun, ?_, dumps_fill_store rfl rfl hpairs hrun⟩
  rw [List.length_map]
  decide +kernel

end Hetnet
