import Mathlib
import Hetnet.Proofs.Collecting
import Hetnet.Proofs.Keys
import Hetnet.Search

/-!
# A search is a list of walks

`Search.visit` interleaves four things: it draws, it reads the network, it extends the
trace and it records. Only the first decides where the search goes. So the nodes that
a visit comes to are listed here on their own, as `Search.walks`, in the order in which
the visit comes to them, and `visit_eq_foldlM` says that the visit is a pass over
this list: read the walk, and record it if it may be recorded. This holds of
every network, failing ones included, because a step that cannot be read stops the pass
at the first walk that takes it.

So a search is what it reads, `Search.reading`, which may fail and in which no collector
occurs, and the list of the walks that it records, which may not: `run_eq_reading` is the
form in which every later law about searches uses it. In a network where every step
can be read nothing stops the pass (`reading_eq_ok`).
-/

namespace Hetnet

theorem foldlM_flatMap {m : Type → Type} [Monad m] [LawfulMonad m] {α β γ : Type}
    (list : List α) (f : α → List β) (g : γ → β → m γ) (init : γ) :
    (list.flatMap f).foldlM g init = list.foldlM (fun acc a => (f a).foldlM g acc) init := by
  induction list generalizing init with
  | nil => rfl
  | cons a rest ih =>
      rw [List.flatMap_cons, List.foldlM_append, List.foldlM_cons]
      exact bind_congr fun acc => ih acc

theorem ok_of_bind {α β ε : Type} {first : Except ε α} {rest : α → Except ε β} {b : β}
    (h : (first >>= rest) = .ok b) : ∃ a, first = .ok a ∧ rest a = .ok b := by
  cases first with
  | error failure => cases h
  | ok a => exact ⟨a, rfl, h⟩

theorem ok_of_liftM {α : Type} {cause : Except Error α} {a : α}
    (h : (liftM cause : Except Failure α) = .ok a) : cause = .ok a := by
  cases cause with
  | error error => cases h
  | ok b =>
      cases h
      rfl

theorem bind_eq_ok {α β ε : Type} {first : Except ε α} {rest : α → Except ε β} {a : α} {b : β}
    (hfirst : first = .ok a) (hrest : rest a = .ok b) : (first >>= rest) = .ok b := by
  rw [hfirst]
  exact hrest

theorem liftM_eq_ok {α : Type} {cause : Except Error α} {a : α} (h : cause = .ok a) :
    (liftM cause : Except Failure α) = .ok a := by
  rw [h]
  rfl

theorem forM_eq_ok {α ε : Type} {step : α → Except ε Unit} {list : List α}
    (h : ∀ a ∈ list, step a = .ok ()) : list.forM step = .ok () := by
  induction list with
  | nil => rfl
  | cons a rest ih =>
      rw [List.forM_eq_forM, List.forM_cons, h a List.mem_cons_self]
      exact ih fun b hb => h b (List.mem_cons_of_mem _ hb)

/-! ## Reading a walk -/

namespace Network

/-- The trace extended by one step. -/
def extend (g : Network) (trace : Trace) (src dst : NodeId) : Except Failure Trace := do
  let edgeType ← g.edgeType src dst
  let labels ← g.labels dst
  return trace.push edgeType labels

/-- The trace extended by the steps of a walk from a node to the given nodes in turn. -/
def follow (g : Network) (trace : Trace) : NodeId → List NodeId → Except Failure Trace
  | _, [] => .ok trace
  | node, next :: rest => do
      let trace ← g.extend trace node next
      g.follow trace next rest

/-- A network in which everything can be read that a walk in a direction comes to: an edge
type leads to every listed neighbor, and reading labels does not crash. -/
structure Readable (g : Network) (direction : Direction) : Prop where
  edgeType : ∀ node, ∀ next ∈ g.neighbors node direction, ∃ type, g.edgeType node next = .ok type
  labels_of_contains : ∀ node, g.contains node = true → ∃ labels, g.labels node = .ok labels
  labels_of_mem : ∀ node, ∀ next ∈ g.neighbors node direction, ∃ labels, g.labels next = .ok labels

/-- The labels of a node; none if they cannot be read. -/
def labelsOf (g : Network) (node : NodeId) : List LabelId :=
  match g.labels node with
  | .ok labels => labels
  | .error _ => []

/-- The edge type between two nodes; an arbitrary one if it cannot be read. -/
def edgeTypeOf (g : Network) (src dst : NodeId) : EdgeTypeId :=
  match g.edgeType src dst with
  | .ok type => type
  | .error _ => default

theorem labelsOf_of_eq_ok {g : Network} {node : NodeId} {labels : List LabelId}
    (h : g.labels node = .ok labels) : g.labelsOf node = labels := by
  rw [labelsOf, h]

theorem edgeTypeOf_of_eq_ok {g : Network} {src dst : NodeId} {type : EdgeTypeId}
    (h : g.edgeType src dst = .ok type) : g.edgeTypeOf src dst = type := by
  rw [edgeTypeOf, h]

theorem labels_eq_labelsOf {g : Network} {node : NodeId}
    (h : ∃ labels, g.labels node = .ok labels) : g.labels node = .ok (g.labelsOf node) := by
  obtain ⟨labels, h⟩ := h
  rw [labelsOf, h]

theorem edgeType_eq_edgeTypeOf {g : Network} {src dst : NodeId}
    (h : ∃ type, g.edgeType src dst = .ok type) :
    g.edgeType src dst = .ok (g.edgeTypeOf src dst) := by
  obtain ⟨type, h⟩ := h
  rw [edgeTypeOf, h]

/-- What the steps of a walk leave in a trace, in walking order. -/
def stepsOf (g : Network) : NodeId → List NodeId → List (EdgeTypeId × List LabelId)
  | _, [] => []
  | node, next :: rest => (g.edgeTypeOf node next, g.labelsOf next) :: g.stepsOf next rest

/-- The trace of a walk. -/
def traceOf (g : Network) (start : NodeId) (walk : List NodeId) : Trace where
  start := g.labelsOf start
  steps := (g.stepsOf start walk).reverse

/-- The meta-paths that a walk stands for, one for each choice of a label per node. -/
def pathsAlong (g : Network) (start : NodeId) (walk : List NodeId) : List MetaPath :=
  (g.traceOf start walk).expand

@[simp] theorem length_stepsOf (g : Network) (node : NodeId) (walk : List NodeId) :
    (g.stepsOf node walk).length = walk.length := by
  induction walk generalizing node with
  | nil => rfl
  | cons next rest ih => simp [stepsOf, ih]

/-- Each node of the walk is adjacent to the one before it. -/
def Joined (g : Network) (direction : Direction) (node : NodeId) (walk : List NodeId) : Prop :=
  List.IsChain (fun src dst => dst ∈ g.neighbors src direction) (node :: walk)

theorem joined_cons {g : Network} {direction : Direction} {node next : NodeId}
    {rest : List NodeId} :
    g.Joined direction node (next :: rest) ↔
      next ∈ g.neighbors node direction ∧ g.Joined direction next rest :=
  List.isChain_cons_cons

theorem follow_of_joined {g : Network} {direction : Direction} (hg : g.Readable direction)
    {node : NodeId} {walk : List NodeId} (hwalk : g.Joined direction node walk)
    (trace : Trace) :
    g.follow trace node walk =
      .ok { trace with steps := (g.stepsOf node walk).reverse ++ trace.steps } := by
  induction walk generalizing node trace with
  | nil => rfl
  | cons next rest ih =>
      obtain ⟨hnext, hrest⟩ := joined_cons.mp hwalk
      have hread : g.extend trace node next =
          .ok (trace.push (g.edgeTypeOf node next) (g.labelsOf next)) := by
        rw [extend, edgeType_eq_edgeTypeOf (hg.edgeType node next hnext),
          labels_eq_labelsOf (hg.labels_of_mem node next hnext)]
        rfl
      rw [follow, hread]
      show g.follow _ next rest = _
      rw [ih hrest]
      simp [Trace.push, stepsOf]

theorem follow_eq_traceOf {g : Network} {direction : Direction} (hg : g.Readable direction)
    {start : NodeId} {walk : List NodeId} (hwalk : g.Joined direction start walk) :
    g.follow { start := g.labelsOf start } start walk = .ok (g.traceOf start walk) := by
  rw [follow_of_joined hg hwalk, List.append_nil]
  rfl

/-- What is read along a walk is its trace, if it can be read. -/
theorem steps_of_follow {g : Network} {trace read : Trace} {node : NodeId} {walk : List NodeId}
    (h : g.follow trace node walk = .ok read) :
    read = { trace with steps := (g.stepsOf node walk).reverse ++ trace.steps } ∧
      ∀ next ∈ walk, g.labels next = .ok (g.labelsOf next) := by
  induction walk generalizing node trace with
  | nil =>
      cases h
      exact ⟨rfl, fun next hnext => by cases hnext⟩
  | cons next rest ih =>
      obtain ⟨longer, hlonger, hgoes⟩ := ok_of_bind h
      obtain ⟨edgeType, htype, hlonger⟩ := ok_of_bind hlonger
      obtain ⟨labels, hlabels, hlonger⟩ := ok_of_bind hlonger
      cases hlonger
      obtain ⟨hread, hrest⟩ := ih hgoes
      obtain rfl := labelsOf_of_eq_ok hlabels
      obtain rfl := edgeTypeOf_of_eq_ok htype
      refine ⟨?_, List.forall_mem_cons.mpr ⟨hlabels, hrest⟩⟩
      rw [hread]
      simp [Trace.push, stepsOf]

theorem eq_traceOf_of_follow {g : Network} {start : NodeId} {walk : List NodeId} {read : Trace}
    (h : g.follow { start := g.labelsOf start } start walk = .ok read) :
    read = g.traceOf start walk := by
  rw [(steps_of_follow h).1, List.append_nil]
  rfl

end Network

/-! ## The walks of a visit -/

namespace Search

variable {C : Type} [Collector C]

/-- The walks that a visit follows, as the nodes that they come to, in the order of the
visit. -/
def walks (s : Search) : Nat → NodeId → UInt64 → List (List NodeId)
  | 0, _, _ => []
  | remaining + 1, node, seed =>
      (s.kept node seed).flatMap fun (next, childSeed) =>
        [next] :: if s.target = some next then []
          else (s.walks remaining next childSeed).map (next :: ·)

/-- The findings after a walk from a node has been read. -/
def note (s : Search) (node : NodeId) (found : Findings C) (walk : List NodeId)
    (trace : Trace) : Findings C :=
  if s.records (walk.getLastD node) trace then found.record trace else found

/-- A visit reads the walks one after the other and records those that it may. The
induction is on the depth that is left; `trace` is what has been read on the way to
the node, so a walk that goes on is read from where the shorter one ended. -/
theorem visit_eq_foldlM (s : Search) (remaining : Nat) (node : NodeId) (seed : UInt64)
    (trace : Trace) (found : Findings C) :
    s.visit remaining node seed trace found =
      (s.walks remaining node seed).foldlM
        (fun found walk => do
          let read ← s.network.follow trace node walk
          return s.note node found walk read)
        found := by
  induction remaining generalizing node seed trace found with
  | zero => rfl
  | succ remaining ih =>
      rw [visit, walks, foldlM_flatMap]
      congr 1
      funext found entry
      obtain ⟨next, childSeed⟩ := entry
      rw [List.foldlM_cons]
      simp only [Network.follow, Network.extend]
      cases htype : s.network.edgeType node next with
      | error failure => rfl
      | ok edgeType =>
          cases hlabels : s.network.labels next with
          | error failure => rfl
          | ok labels =>
              have hlast : ∀ walk : List NodeId,
                  (next :: walk).getLastD node = walk.getLastD next := by
                intro walk
                cases walk <;> rfl
              show (if s.target = some next then _ else _) = _
              by_cases htarget : s.target = some next
              · rw [if_pos htarget, if_pos htarget]
                rfl
              · rw [if_neg htarget, if_neg htarget, ih]
                show _ = List.foldlM _ (s.note node found [next] (trace.push edgeType labels)) _
                have hfollow : ∀ walk : List NodeId,
                    s.network.follow trace node (next :: walk) =
                      s.network.follow (trace.push edgeType labels) next walk := by
                  intro walk
                  rw [Network.follow, Network.extend, htype, hlabels]
                  rfl
                rw [List.foldlM_map]
                simp only [note, hlast, hfollow]
                rfl

theorem mem_neighbors_of_mem_kept {b : Branch} {nodes : List NodeId} {next : NodeId}
    {childSeed : UInt64} (h : (next, childSeed) ∈ b.kept nodes) : next ∈ nodes := by
  induction nodes generalizing b with
  | nil => cases h
  | cons node rest ih =>
      rw [Branch.kept] at h
      split at h
      split at h
      · rcases List.mem_cons.mp h with heq | hrest
        · cases heq
          exact List.mem_cons_self
        · exact List.mem_cons_of_mem _ (ih hrest)
      · exact List.mem_cons_of_mem _ (ih h)

theorem joined_of_mem_walks {s : Search} {remaining : Nat} {node : NodeId} {seed : UInt64}
    {walk : List NodeId} (h : walk ∈ s.walks remaining node seed) :
    s.network.Joined s.direction node walk := by
  induction remaining generalizing node seed walk with
  | zero => cases h
  | succ remaining ih =>
      obtain ⟨⟨next, childSeed⟩, hkept, hwalk⟩ := List.mem_flatMap.mp h
      have hnext := mem_neighbors_of_mem_kept hkept
      rcases List.mem_cons.mp hwalk with rfl | hlong
      · exact Network.joined_cons.mpr ⟨hnext, List.isChain_singleton _⟩
      · split at hlong
        · cases hlong
        · obtain ⟨rest, hrest, rfl⟩ := List.mem_map.mp hlong
          exact Network.joined_cons.mpr ⟨hnext, ih hrest⟩

/-! ## The recorded walks -/

/-- Whether a walk is recorded, told by where it ends and how long it is. -/
def passes (s : Search) (start : NodeId) (walk : List NodeId) : Bool :=
  s.arrives (walk.getLastD start) && s.mode.accepts walk.length s.maxLength

/-- The walks from a start node that a search records, in order. -/
def recorded (s : Search) (start : NodeId) (seed : UInt64) : List (List NodeId) :=
  (s.walks s.maxLength start seed).filter (s.passes start)

theorem records_traceOf (s : Search) (start : NodeId) (walk : List NodeId) :
    s.records (walk.getLastD start) (s.network.traceOf start walk) = s.passes start walk := by
  simp [records, passes, Trace.hops, Network.traceOf]

/-- What a search reads: room for its trace, the labels of the start node, and its walks one
after the other. -/
def reading (s : Search) (start : NodeId) (seed : UInt64) : Except Failure Unit := do
  Trace.reserve s.maxLength
  let labels ← s.network.labels start
  (s.walks s.maxLength start seed).forM fun walk =>
    discard (s.network.follow { start := labels } start walk)

/-- Reading walks and recording them gets as far as reading them alone, and what has been
recorded at the end are the paths of the walks that pass the test. -/
theorem foldlM_note {s : Search} {start : NodeId} (walks : List (List NodeId))
    (found : Findings C) :
    walks.foldlM (fun found walk => do
        let read ← s.network.follow { start := s.network.labelsOf start } start walk
        return s.note start found walk read) found =
      ((walks.forM fun walk => discard
          (s.network.follow { start := s.network.labelsOf start } start walk)).map fun _ =>
        { collector := Collector.recordAll found.collector
            ((walks.filter (s.passes start)).flatMap (s.network.pathsAlong start))
          traces := found.traces + (walks.filter (s.passes start)).length
          instances := found.instances + .ofNat
            ((walks.filter (s.passes start)).flatMap (s.network.pathsAlong start)).length } :
        Except Failure (Findings C)) := by
  induction walks generalizing found with
  | nil =>
      show Except.ok found = Except.ok { found with instances := found.instances + 0 }
      rw [UInt64.add_zero]
  | cons walk rest ih =>
      rw [List.foldlM_cons, List.forM_eq_forM, List.forM_cons]
      cases hread : s.network.follow { start := s.network.labelsOf start } start walk with
      | error failure => rfl
      | ok read =>
          obtain rfl := Network.eq_traceOf_of_follow hread
          show List.foldlM _ (s.note start found walk (s.network.traceOf start walk)) rest =
            Except.map _ (rest.forM _)
          rw [ih, note, records_traceOf, List.filter_cons]
          congr 1
          funext _
          split
          · rw [List.flatMap_cons, List.length_cons, List.length_append, UInt64.ofNat_add,
              ← Collector.recordAll_recordAll]
            simp only [Findings.record, Trace.combinations_eq, Network.pathsAlong, Nat.add_assoc,
              Nat.add_comm 1, UInt64.add_assoc]
          · rfl

/-- A search succeeds if what it reads can be read, and what it finds are the paths of the
walks that it records. -/
theorem run_eq_reading (s : Search) (start : NodeId) (seed : UInt64) :
    s.run start seed = (s.reading start seed).map fun _ =>
      { collector := Collector.ofPaths C
          ((s.recorded start seed).flatMap (s.network.pathsAlong start))
        traces := (s.recorded start seed).length
        instances := .ofNat
          ((s.recorded start seed).flatMap (s.network.pathsAlong start)).length } := by
  rw [run, reading]
  cases Trace.reserve s.maxLength with
  | error failure => rfl
  | ok _ =>
      cases hlabels : s.network.labels start with
      | error failure => rfl
      | ok labels =>
          obtain rfl := Network.labelsOf_of_eq_ok hlabels
          show s.visit _ _ _ _ _ = Except.map _ (List.forM _ _)
          rw [visit_eq_foldlM, foldlM_note]
          simp only [Findings.empty, Nat.zero_add, UInt64.zero_add]
          rfl

/-- Everything that a search reads can be read in a readable network. -/
theorem reading_eq_ok {s : Search} (hroom : Trace.reserve s.maxLength = .ok ())
    (hg : s.network.Readable s.direction) {start : NodeId}
    (hstart : ∃ labels, s.network.labels start = .ok labels) (seed : UInt64) :
    s.reading start seed = .ok () := by
  rw [reading, hroom, Network.labels_eq_labelsOf hstart]
  refine forM_eq_ok fun walk hwalk => ?_
  rw [Network.follow_eq_traceOf hg (joined_of_mem_walks hwalk)]
  rfl

end Search

end Hetnet
