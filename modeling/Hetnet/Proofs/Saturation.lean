import Mathlib
import Hetnet.Proofs.EdgeOrder
import Hetnet.Proofs.Lengths
import Hetnet.Proofs.Refusals
import Hetnet.Proofs.SchemaPaths

/-!
# Length bounds beyond the longest walk

Where no walk from the start node has more than h hops, a bound of k ≥ h cuts nothing off. The
walks under it are those under h (`walksOf_saturates`), sampled or not, and both answers are
read off the walks, so they are the same. None of the walks has exactly k hops if h < k.

That is so as far as there is an answer. A search requests room for a trace of k hops before it
takes its first step, whether or not there are walks that long, and the settings are found in
order for every k but 0. So the answers stop with the last bound for which the room can be
requested at all, which is far below the last one that is accepted, and beyond it every search
crashes (`reading_eq_crash`).
-/

namespace Hetnet

/-- The request is for walks from the node. -/
def Request.StartsAt (start : NodeId) : Request → Prop
  | .pair first _ | .walksFrom first => first = start
  | .wholeGraph _ | .pairs _ => False

theorem Trace.reserve_eq_ok_iff {maxHops : Nat} :
    reserve maxHops = .ok () ↔ (maxHops + 1) * stepBytes ≤ addressableBytes := by
  rw [reserve, Hetnet.reserve]
  split
  · next h => exact iff_of_true rfl h
  · next h => exact iff_of_false (fun heq => by cases heq) h

namespace Enumerator

variable {e : Enumerator} {settings : SearchSettings} {request : Request} {start : NodeId}

theorem fst_of_mem_walksOf (hstart : request.StartsAt start) {found : NodeId × List NodeId}
    (h : found ∈ e.walksOf settings request) : found.1 = start := by
  obtain ⟨ends, hends, hbetween⟩ := List.mem_flatMap.mp h
  obtain ⟨walk, -, rfl⟩ := List.mem_map.mp hbetween
  cases request with
  | pair first stop =>
      rw [List.mem_singleton.mp hends]
      exact hstart
  | walksFrom first =>
      rw [List.mem_singleton.mp hends]
      exact hstart
  | wholeGraph range => exact hstart.elim
  | pairs list => exact hstart.elim

section

variable (settings) {longest bound : Nat} (hstart : request.StartsAt start)
  (hlongest : ∀ walk, e.network.Joined e.direction start walk → walk.length ≤ longest)
include hstart hlongest

theorem length_le_of_mem_walksOf {found : NodeId × List NodeId}
    (h : found ∈ e.walksOf settings request) : found.2.length ≤ longest :=
  hlongest found.2 (fst_of_mem_walksOf hstart h ▸ joined_of_mem_walksOf h)

theorem walksOf_saturates (hle : longest ≤ bound) :
    e.walksOf (settings.bounded .upTo longest) request =
      e.walksOf (settings.bounded .upTo bound) request := by
  rw [walksOf_bounded e settings .upTo hle, List.filter_eq_self]
  intro found hfound
  exact LengthMode.accepts_upTo.mpr
    ⟨(LengthMode.accepts_upTo.mp (length_of_mem_walksOf hfound)).1,
      length_le_of_mem_walksOf _ hstart hlongest hfound⟩

theorem walksOf_exact_of_lt (hlt : longest < bound) :
    e.walksOf (settings.bounded .exact bound) request = [] := by
  refine List.eq_nil_iff_forall_not_mem.mpr fun found hfound => ?_
  have hlength : found.2.length = bound :=
    LengthMode.accepts_exact.mp (length_of_mem_walksOf hfound)
  have := length_le_of_mem_walksOf _ hstart hlongest hfound
  omega

end

/-- A request has the same answers under both bounds, and none of exactly the greater one. -/
structure Saturates (e : Enumerator) (settings : SearchSettings) (request : Request)
    (few many : Nat) : Prop where
  upTo : ∃ o r,
    e.occurrences request (settings.bounded .upTo few) = .ok o ∧
      e.occurrences request (settings.bounded .upTo many) = .ok o ∧
      e.enumerate request (settings.bounded .upTo few) = .ok r ∧
      e.enumerate request (settings.bounded .upTo many) = .ok r
  beyond : few < many → ∃ o r,
    e.occurrences request (settings.bounded .exact many) = .ok o ∧
      e.enumerate request (settings.bounded .exact many) = .ok r ∧
      o.tally = ∅ ∧ o.traces = 0 ∧ r.paths = ∅ ∧ r.traces = 0

theorem paths_resultOf_of_walksOf_eq_nil (h : e.walksOf settings request = []) :
    (e.resultOf settings request).paths = ∅ := by
  have hempty : Collector.ofPaths MetaPathSet (e.pathsOf (e.walksOf settings request)) = ∅ := by
    rw [h]
    rfl
  rw [resultOf, hempty]
  cases settings.limit with
  | none => rfl
  | some limit =>
      have hsize : ¬ limit < (∅ : MetaPathSet).size := Nat.not_lt_zero limit
      dsimp only
      rw [if_neg hsize]

theorem saturates {longest bound : Nat} (hstart : request.StartsAt start)
    (hlongest : ∀ walk, e.network.Joined e.direction start walk → walk.length ≤ longest)
    (hle : longest ≤ bound)
    (hfew : e.CanAnswer (settings.bounded .upTo longest) request)
    (hmany : ∀ mode, e.CanAnswer (settings.bounded mode bound) request) :
    e.Saturates settings request longest bound where
  upTo := by
    have hwalks := walksOf_saturates settings hstart hlongest hle
    have hoccurrences : e.occurrencesOf (settings.bounded .upTo longest) request =
        e.occurrencesOf (settings.bounded .upTo bound) request := by
      rw [occurrencesOf, occurrencesOf, hwalks]
      rfl
    have hresults : e.resultOf (settings.bounded .upTo longest) request =
        e.resultOf (settings.bounded .upTo bound) request := by
      rw [resultOf, resultOf, hwalks, endsOf_bounded, endsOf_bounded]
      rfl
    exact ⟨_, _, occurrences_eq_ok hfew, hoccurrences ▸ occurrences_eq_ok (hmany .upTo),
      enumerate_eq_ok hfew, hresults ▸ enumerate_eq_ok (hmany .upTo)⟩
  beyond := by
    intro hlt
    have hnone := walksOf_exact_of_lt settings hstart hlongest hlt
    refine ⟨_, _, occurrences_eq_ok (hmany .exact), enumerate_eq_ok (hmany .exact), ?_, ?_,
      paths_resultOf_of_walksOf_eq_nil hnone, ?_⟩
    · rw [occurrencesOf, hnone]
      rfl
    · rw [occurrencesOf, hnone]
      rfl
    · rw [resultOf, hnone]
      rfl

/-- Without room for its trace a search crashes, whatever it would find. -/
theorem reading_eq_crash (hstart : request.StartsAt start) (hvalid : settings.validate = .ok ())
    (hknows : e.Knows request)
    (hroom : ¬ (settings.maxLength + 1) * Trace.stepBytes ≤ addressableBytes) :
    e.reading settings request = .error (.crash "capacity overflow") := by
  have hreserve : Trace.reserve settings.maxLength = .error (.crash "capacity overflow") :=
    if_neg hroom
  have hsearch : ∀ ends, e.readingOf settings ends = .error (.crash "capacity overflow") := by
    intro ends
    show (do
      Trace.reserve settings.maxLength
      let labels ← e.network.labels ends.1
      _ : Except Failure Unit) = _
    rw [hreserve]
    rfl
  rw [reading.eq_def, admits_eq_ok hvalid hknows, liftM_ok_bind]
  cases request with
  | pair first stop => exact hsearch _
  | walksFrom first => exact hsearch _
  | wholeGraph range => exact hstart.elim
  | pairs list => exact hstart.elim

theorem validate_bounded {mode : LengthMode} {bound : Nat} (hbound : 1 ≤ bound)
    (hprobabilities : (0.0 ≤ settings.nodeSkip ∧ settings.nodeSkip ≤ 1.0) ∧
      0.0 ≤ settings.edgeSkip ∧ settings.edgeSkip ≤ 1.0) :
    (settings.bounded mode bound).validate = .ok () :=
  SearchSettings.validate_eq_ok.mpr ⟨Nat.one_le_iff_ne_zero.mp hbound, hprobabilities⟩

/-- Where no walk from the node has more than a number of hops, every greater bound is in order.
The requests for its walks have the same answers under it, and none for walks of exactly that
length, if there is room for the trace that the bound allows for; and if there is not, they
crash. -/
theorem saturates_if_room {longest bound : Nat} (hstart : request.StartsAt start)
    (hknows : e.Knows request) (hreadable : e.network.Readable e.direction)
    (haccept : ∀ sink, e.sink = some sink → ∀ dump, sink.takes dump = .ok ())
    (hprobabilities : (0.0 ≤ settings.nodeSkip ∧ settings.nodeSkip ≤ 1.0) ∧
      0.0 ≤ settings.edgeSkip ∧ settings.edgeSkip ≤ 1.0)
    (hpos : 1 ≤ longest)
    (hlongest : ∀ walk, e.network.Joined e.direction start walk → walk.length ≤ longest)
    (hle : longest ≤ bound) :
    (∀ mode, (settings.bounded mode bound).validate = .ok ()) ∧
    ((bound + 1) * Trace.stepBytes ≤ addressableBytes →
      e.Saturates settings request longest bound) ∧
    (¬ (bound + 1) * Trace.stepBytes ≤ addressableBytes → ∀ mode,
      e.occurrences request (settings.bounded mode bound) = .error (.crash "capacity overflow") ∧
        e.enumerate request (settings.bounded mode bound) =
          .error (.crash "capacity overflow")) := by
  have hvalid : ∀ mode, (settings.bounded mode bound).validate = .ok () := fun mode =>
    validate_bounded (le_trans hpos hle) hprobabilities
  refine ⟨hvalid, fun hroom => ?_, fun hfull mode => ?_⟩
  · have hreserve : Trace.reserve bound = .ok () := Trace.reserve_eq_ok_iff.mpr hroom
    exact saturates hstart hlongest hle
      ⟨validate_bounded hpos hprobabilities, Trace.reserve_of_le hreserve hle, hknows, hreadable,
        haccept⟩
      fun mode => ⟨hvalid mode, hreserve, hknows, hreadable, haccept⟩
  · have hcrash := reading_eq_crash hstart (hvalid mode) hknows hfull
    exact ⟨(occurrences_eq_error_iff haccept).mpr hcrash,
      (enumerate_eq_error_iff haccept).mpr hcrash⟩

end Enumerator

namespace GraphBuilder

/-- Two nodes and an edge from the first to the second. -/
def arrow : List BuilderCall := twoNodes ++ [.addEdgeWithType ⟨7⟩ ⟨3⟩ ⟨5⟩]

theorem records_arrow : (ofCalls arrow).Records
    ([.node ⟨7⟩ [⟨0⟩], .node ⟨3⟩ [⟨1⟩]] ++ [.edge ⟨⟨0⟩, ⟨1⟩⟩ ⟨5⟩]) :=
  records_twoNodes.addEdge ⟨⟨0⟩, ⟨1⟩⟩ ⟨5⟩ rfl rfl (by simp [Addition.edges])

theorem mem_outgoing_arrow {node next : NodeId} :
    next ∈ (ofCalls arrow).build.neighbors node .outgoing ↔ node = ⟨0⟩ ∧ next = ⟨1⟩ := by
  rw [mem_outgoing (consistent_ofCalls arrow), records_arrow.mem_arcs]
  simp [Addition.edges]

theorem length_le_arrow (walk : List NodeId)
    (h : (ofCalls arrow).build.network.Joined .outgoing ⟨0⟩ walk) : walk.length ≤ 1 := by
  match walk, h with
  | [], _ => exact Nat.zero_le _
  | [_], _ => exact Nat.le_refl _
  | first :: second :: _, h =>
      obtain ⟨hfirst, hrest⟩ := Network.joined_cons.mp h
      obtain ⟨hsecond, -⟩ := Network.joined_cons.mp hrest
      have hone : first = ⟨1⟩ := (mem_outgoing_arrow.mp hfirst).2
      have hzero : first = ⟨0⟩ := (mem_outgoing_arrow.mp hsecond).1
      rw [hone] at hzero
      exact absurd hzero (by decide)

theorem contains_arrow {node : NodeId} (h : node.index < 2) :
    (ofCalls arrow).build.network.contains node = true := by
  rw [contains_build_iff, records_arrow.nodeCount]
  exact h

end GraphBuilder

namespace Enumerator

/-- Asks for the walks along the edge. -/
def alongArrow : Enumerator where
  network := (GraphBuilder.ofCalls GraphBuilder.arrow).build.network
  direction := .outgoing

theorem knows_alongArrow : alongArrow.Knows (.pair ⟨0⟩ ⟨1⟩) :=
  ⟨GraphBuilder.contains_arrow (by decide), GraphBuilder.contains_arrow (by decide)⟩

theorem startsAt_pair (start stop : NodeId) : Request.StartsAt start (.pair start stop) := rfl

/-- Along an edge no bound finds more than the bound of one hop, and the greatest bound with room
for its trace answers all the same. -/
theorem saturates_if_room_arrow :
    alongArrow.Saturates { maxLength := 1, edgeSkip := 0.5 } (.pair ⟨0⟩ ⟨1⟩) 1
      384307168202282324 :=
  (saturates_if_room (startsAt_pair ⟨0⟩ ⟨1⟩) knows_alongArrow (GraphBuilder.readable_build _ _)
    (accepting_of_sink_eq_none rfl) (by decide +kernel) (Nat.le_refl 1)
    GraphBuilder.length_le_arrow (by decide)).2.1 (by decide)

/-- The greatest bound whose successor is a machine word is accepted and crashes, though no walk
has more than one hop. -/
theorem arrow_crashes :
    let settings (maxLength : Nat) : SearchSettings := { maxLength }
    (∀ walk, alongArrow.network.Joined alongArrow.direction ⟨0⟩ walk → walk.length ≤ 1) ∧
      (settings 18446744073709551614).validate = .ok () ∧
      18446744073709551614 + 1 < UInt64.size ∧
      (∃ r, alongArrow.enumerate (.pair ⟨0⟩ ⟨1⟩) (settings 1) = .ok r) ∧
      alongArrow.enumerate (.pair ⟨0⟩ ⟨1⟩) (settings 18446744073709551614) =
        .error (.crash "capacity overflow") := by
  intro settings
  have hunsampled : (0.0 ≤ (0.0 : Float) ∧ (0.0 : Float) ≤ 1.0) ∧
      0.0 ≤ (0.0 : Float) ∧ (0.0 : Float) ≤ 1.0 := by decide +kernel
  have hvalid : ∀ bound, bound ≠ 0 → (settings bound).validate = .ok () := fun bound hbound =>
    SearchSettings.validate_eq_ok.mpr ⟨hbound, hunsampled⟩
  have haccept := accepting_of_sink_eq_none (e := alongArrow) rfl
  have hone : alongArrow.CanAnswer (settings 1) (.pair ⟨0⟩ ⟨1⟩) :=
    ⟨hvalid 1 (by decide), rfl, knows_alongArrow, GraphBuilder.readable_build _ _, haccept⟩
  have hcrash := reading_eq_crash (startsAt_pair ⟨0⟩ ⟨1⟩) (hvalid 18446744073709551614 (by decide))
    knows_alongArrow (by decide)
  exact ⟨GraphBuilder.length_le_arrow, hvalid _ (by decide), by decide,
    ⟨_, enumerate_eq_ok hone⟩, (enumerate_eq_error_iff haccept).mpr hcrash⟩

end Enumerator

end Hetnet
