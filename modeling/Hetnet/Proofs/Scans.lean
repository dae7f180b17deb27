import Mathlib
import Hetnet.Network.Listed
import Hetnet.Proofs.Extraction

/-!
# How the nodes are cut into blocks is never seen

`Extraction` says what the schema of a network is when everything can be read. Here the
network is any network: its lists may name nodes that do not exist, its labels may
lie outside the vocabulary, and reading may fail at one node and crash at the next.

What carries over from one block to the next is the schema so far, and no step looks at
it: a step fails whatever was recorded before it, or else unites what was recorded with
a schema of its own (`Schema.Unites`). Such steps in a row are again such a step, and it
fails as the first of them that fails. So the blocks, each scanned from nothing and
united afterwards, come to what one scan over all nodes comes to, and the lowest failing
block is the one in which that scan would have stopped. That this block is the one reported
is a condition on the run (`Reporting.lowest`): under another reporting the same extractions
fail, but for the reason of some later block.
-/

namespace Hetnet

/-- The error that a run gives as the source of the failure of a task. -/
def Failure.cause : Failure → Error
  | .error source => source
  | .crash message => .internal message

theorem Failure.inTask_eq (failure : Failure) (task : Nat) :
    failure.inTask task = .workerFailed task failure.cause := by
  cases failure <;> rfl

/-! ## The steps of a scan -/

namespace Network

variable (g : Network)

/-- How the linking of two labels fails: at the first of them outside the vocabulary. -/
def linkFailure? (a b : LabelId) : Option Failure :=
  ([a, b].find? fun label => g.labelCount ≤ label.index).map fun label =>
    .error (.internal s!"label {label.text} outside a vocabulary of {g.labelCount} labels")

/-- The steps of the scan of a node in order, each with its failure. The labels of the
node are read; then, for every neighbor, the edge type and the labels over there, and
each of these is linked with the labels of the node. -/
def scanSteps (node : NodeId) : List (Option Failure) :=
  failure? (g.labels node) :: (g.neighbors node .outgoing).flatMap fun next =>
    failure? (g.edgeType node next) :: failure? (g.labels next) ::
      (g.labelsOf next).flatMap fun b => (g.labelsOf node).map fun a => g.linkFailure? a b

/-- The first failing step of one scan over all nodes, from left to right. -/
def scanFailure? : Option Failure :=
  (failure? (reserve g.labelCount Schema.rowBytes) ::
    (nodesFrom 0 g.nodeCount).flatMap g.scanSteps).findSome? id

end Network

theorem findSome?_flatMap {α β γ : Type} (list : List α) (f : α → List β) (p : β → Option γ) :
    (list.flatMap f).findSome? p = list.findSome? fun a => (f a).findSome? p := by
  induction list with
  | nil => rfl
  | cons a rest ih =>
      rw [List.flatMap_cons, List.findSome?_append, ih, List.findSome?_cons]
      cases (f a).findSome? p <;> rfl

theorem findSome?_cons_id {β : Type} (a : Option β) (rest : List (Option β)) :
    (a :: rest).findSome? id = a.or (rest.findSome? id) := by
  cases a <;> rfl

theorem liftM_foldlM {α β : Type} (step : β → α → Except Error β) (list : List α) (init : β) :
    (liftM (list.foldlM step init) : Except Failure β) =
      list.foldlM (fun acc a => liftM (step acc a)) init := by
  induction list generalizing init with
  | nil => rfl
  | cons a rest ih =>
      rw [List.foldlM_cons, List.foldlM_cons]
      cases h : step init a with
      | error cause => rfl
      | ok acc => exact ih acc

/-! ## Uniting -/

namespace Schema

theorem merge_empty {s : Schema} {count : Nat} (h : s.labelCount = count) :
    s.merge (empty count) = s := by
  refine ext_row ?_ fun i => ?_
  · rw [labelCount_merge, labelCount_empty, h, Nat.max_self]
  · rw [row_merge, row_empty]
    refine Std.ExtTreeSet.ext_mem fun entry => ?_
    simp

theorem empty_merge {s : Schema} {count : Nat} (h : s.labelCount = count) :
    (empty count).merge s = s := by
  refine ext_row ?_ fun i => ?_
  · rw [labelCount_merge, labelCount_empty, h, Nat.max_self]
  · rw [row_merge, row_empty]
    refine Std.ExtTreeSet.ext_mem fun entry => ?_
    simp

theorem merge_assoc (s t u : Schema) : (s.merge t).merge u = s.merge (t.merge u) := by
  refine ext_row ?_ fun i => ?_
  · rw [labelCount_merge, labelCount_merge, labelCount_merge, labelCount_merge, Nat.max_assoc]
  · rw [row_merge, row_merge, row_merge, row_merge]
    refine Std.ExtTreeSet.ext_mem fun entry => ?_
    simp only [Std.ExtTreeSet.mem_union_iff, or_assoc]

theorem merge_link {s t : Schema} {a : LabelId} (ha : a.index < t.labelCount)
    (hle : s.labelCount = t.labelCount) (entry : SchemaLink) :
    (s.merge t).link a entry = s.merge (t.link a entry) := by
  have hcount : (s.merge t).labelCount = t.labelCount := by
    rw [labelCount_merge, hle, Nat.max_self]
  refine ext_row ?_ fun i => Std.ExtTreeSet.ext_mem fun other => ?_
  · rw [labelCount_link, labelCount_merge, labelCount_merge, labelCount_link]
  · rw [mem_row_link (hcount.symm ▸ ha), row_merge, row_merge, Std.ExtTreeSet.mem_union_iff,
      Std.ExtTreeSet.mem_union_iff, mem_row_link ha]
    tauto

/-- A step on schemas over `count` labels that does not look at what was recorded before it.
It always fails in the given way, or it adds a schema of its own. -/
def Unites (count : Nat) (step : Schema → Except Failure Schema) : Option Failure → Prop
  | some failure => ∀ s : Schema, s.labelCount = count → step s = .error failure
  | none => ∃ added : Schema, added.labelCount = count ∧
      ∀ s : Schema, s.labelCount = count → step s = .ok (s.merge added)

namespace Unites

variable {count : Nat} {step next : Schema → Except Failure Schema} {fails fails' : Option Failure}

theorem pure (count : Nat) : Unites count .ok none :=
  ⟨empty count, labelCount_empty count, fun _ hs => congrArg Except.ok (merge_empty hs).symm⟩

theorem bind (h : Unites count step fails) (hnext : Unites count next fails') :
    Unites count (fun s => step s >>= next) (fails.or fails') := by
  cases fails with
  | some failure =>
      intro s hs
      show step s >>= next = .error failure
      rw [h s hs]
      rfl
  | none =>
      obtain ⟨added, hadded, hstep⟩ := h
      have hcount : ∀ s : Schema, s.labelCount = count → (s.merge added).labelCount = count :=
        fun s hs => by rw [labelCount_merge, hs, hadded, Nat.max_self]
      cases fails' with
      | some failure =>
          intro s hs
          show step s >>= next = .error failure
          rw [hstep s hs]
          exact hnext _ (hcount s hs)
      | none =>
          obtain ⟨more, hmore, hnext⟩ := hnext
          refine ⟨added.merge more, ?_, fun s hs => ?_⟩
          · rw [labelCount_merge, hadded, hmore, Nat.max_self]
          · show step s >>= next = _
            rw [hstep s hs, ← merge_assoc]
            exact hnext _ (hcount s hs)

/-- A loop over steps fails as the first of them that fails. -/
theorem foldlM {α : Type} {step : Schema → α → Except Failure Schema} {fails : α → Option Failure}
    {list : List α} (h : ∀ a ∈ list, Unites count (step · a) (fails a)) :
    Unites count (fun s => list.foldlM step s) (list.findSome? fails) := by
  induction list with
  | nil => exact pure count
  | cons a rest ih =>
      have hrest := ih fun b hb => h b (List.mem_cons_of_mem _ hb)
      have hboth := (h a List.mem_cons_self).bind hrest
      rw [List.findSome?_cons]
      cases hfails : fails a with
      | some failure => simpa only [hfails, List.foldlM_cons, Option.some_or] using hboth
      | none => simpa only [hfails, List.foldlM_cons, Option.none_or] using hboth

/-- What is read before a step does not depend on what was recorded either. -/
theorem read {α : Type} {value : Except Failure α} {step : α → Schema → Except Failure Schema}
    (h : ∀ a, value = .ok a → Unites count (step a) fails) :
    Unites count (fun s => value >>= fun a => step a s) ((failure? value).or fails) := by
  cases value with
  | error failure => exact fun _ _ => rfl
  | ok a => exact h a rfl

end Unites

variable (g : Network)

theorem unites_record (a b : LabelId) (edgeType : EdgeTypeId) :
    Unites g.labelCount (fun s => liftM (s.record a b edgeType)) (g.linkFailure? a b) := by
  have houtside : ∀ s : Schema, s.labelCount = g.labelCount →
      s.outside? [a, b] = [a, b].find? fun label => g.labelCount ≤ label.index := by
    intro s hs
    rw [outside?, hs]
  cases hfind : [a, b].find? fun label => g.labelCount ≤ label.index with
  | some label =>
      rw [Network.linkFailure?, hfind]
      intro s hs
      show (liftM (s.record a b edgeType) : Except Failure Schema) = _
      rw [record, houtside s hs, hfind, hs]
      rfl
  | none =>
      rw [Network.linkFailure?, hfind]
      have hinside := List.find?_eq_none.mp hfind
      have ha : a.index < g.labelCount := by simpa using hinside a (by simp)
      have hb : b.index < g.labelCount := by simpa using hinside b (by simp)
      have hempty := labelCount_empty g.labelCount
      refine ⟨((empty g.labelCount).link a ⟨b, edgeType⟩).link b ⟨a, edgeType⟩, ?_,
        fun s hs => ?_⟩
      · rw [labelCount_link, labelCount_link, hempty]
      · show (liftM (s.record a b edgeType) : Except Failure Schema) = _
        rw [record, houtside s hs, hfind, ← merge_link, ← merge_link, merge_empty hs]
        · rfl
        all_goals simpa only [labelCount_link, hempty]

theorem unites_recordAll (labels neighborLabels : List LabelId) (edgeType : EdgeTypeId) :
    Unites g.labelCount (fun s => liftM (s.recordAll labels neighborLabels edgeType))
      ((neighborLabels.flatMap fun b => labels.map fun a => g.linkFailure? a b).findSome? id) := by
  have hinner : ∀ b, Unites g.labelCount
      (fun s => liftM (labels.foldlM (fun s a => s.record a b edgeType) s))
      ((labels.map fun a => g.linkFailure? a b).findSome? id) := by
    intro b
    rw [List.findSome?_map]
    simp only [liftM_foldlM]
    exact Unites.foldlM fun a _ => unites_record g a b edgeType
  rw [findSome?_flatMap]
  simp only [recordAll, liftM_foldlM] at hinner ⊢
  exact Unites.foldlM fun b _ => hinner b

theorem unites_scanNode (node : NodeId) :
    Unites g.labelCount (fun s => scanNode g s node) ((g.scanSteps node).findSome? id) := by
  rw [Network.scanSteps, findSome?_cons_id, findSome?_flatMap]
  refine Unites.read fun labels hlabels => Unites.foldlM fun next _ => ?_
  rw [findSome?_cons_id, findSome?_cons_id]
  refine Unites.read fun edgeType _ => Unites.read fun neighborLabels hneighbor => ?_
  rw [Network.labelsOf_of_eq_ok hlabels, Network.labelsOf_of_eq_ok hneighbor]
  exact unites_recordAll g labels neighborLabels edgeType

/-! ## Scanning a block -/

/-- The first failing step of the scan of a block. -/
def blockFailure? (block : Block) : Option Failure :=
  (failure? (reserve g.labelCount rowBytes)).or
    ((Network.nodesFrom block.start block.stop).findSome? fun node =>
      (g.scanSteps node).findSome? id)

theorem unites_scanNodes (block : Block) :
    Unites g.labelCount
      (fun s => (Network.nodesFrom block.start block.stop).foldlM (scanNode g) s)
      ((Network.nodesFrom block.start block.stop).findSome? fun node =>
        (g.scanSteps node).findSome? id) :=
  Unites.foldlM fun node _ => unites_scanNode g node

variable {g}

theorem scan_eq_error {block : Block} {failure : Failure}
    (h : blockFailure? g block = some failure) : scan g block = .error failure := by
  have hscan : Unites g.labelCount
      (fun s => do
        reserve g.labelCount rowBytes
        (Network.nodesFrom block.start block.stop).foldlM (scanNode g) s)
      (blockFailure? g block) :=
    Unites.read fun _ _ => unites_scanNodes g block
  rw [h] at hscan
  exact hscan _ (labelCount_empty _)

/-- A block that does not fail adds the schema of its own scan, whatever was recorded before. -/
theorem scan_eq_ok_of_none {block : Block} (h : blockFailure? g block = none) :
    scan g block = .ok (scanned g block) ∧ (scanned g block).labelCount = g.labelCount ∧
      ∀ s : Schema, s.labelCount = g.labelCount →
        (Network.nodesFrom block.start block.stop).foldlM (scanNode g) s =
          .ok (s.merge (scanned g block)) := by
  obtain ⟨hroom, hnodes⟩ := Option.or_eq_none_iff.mp h
  have hunites := unites_scanNodes g block
  rw [hnodes] at hunites
  obtain ⟨added, hadded, hstep⟩ := hunites
  have hscan : scan g block = .ok added := by
    rw [scan]
    cases hreserve : reserve g.labelCount rowBytes with
    | error failure => rw [hreserve] at hroom; cases hroom
    | ok _ => exact (hstep _ (labelCount_empty _)).trans (congrArg Except.ok (empty_merge hadded))
  have hscanned : scanned g block = added := by rw [scanned, hscan]
  rw [hscanned]
  exact ⟨hscan, hadded, hstep⟩

theorem foldlM_blocks {blocks : List Block} (h : ∀ block ∈ blocks, blockFailure? g block = none)
    {s : Schema} (hs : s.labelCount = g.labelCount) :
    (blocks.flatMap fun block => Network.nodesFrom block.start block.stop).foldlM (scanNode g) s =
      .ok ((blocks.map (scanned g)).foldl merge s) := by
  induction blocks generalizing s with
  | nil => rfl
  | cons block rest ih =>
      obtain ⟨-, hcount, hstep⟩ := scan_eq_ok_of_none (h block List.mem_cons_self)
      rw [List.flatMap_cons, List.foldlM_append, hstep s hs]
      refine ih (fun other hother => h other (List.mem_cons_of_mem _ hother)) ?_
      rw [labelCount_merge, hs, hcount, Nat.max_self]

/-! ## Cutting -/

theorem exists_cons_partition (length : Nat) {parts : Nat} (hparts : parts ≠ 0) :
    ∃ block rest, Block.partition length parts = block :: rest := by
  refine List.exists_cons_of_ne_nil fun hnil => hparts ?_
  have hlength := congrArg List.length hnil
  simpa [Block.partition] using hlength

theorem blockFailure?_all : blockFailure? g ⟨0, g.nodeCount⟩ = g.scanFailure? := by
  rw [Network.scanFailure?, findSome?_cons_id, findSome?_flatMap]
  rfl

/-- The blocks, one after the other, fail as the one block of all nodes does. -/
theorem findSome?_blockFailure? {parts : Nat} (hparts : parts ≠ 0) :
    (Block.partition g.nodeCount parts).findSome? (blockFailure? g) = g.scanFailure? := by
  rw [← blockFailure?_all]
  show _ = (failure? (reserve g.labelCount rowBytes)).or _
  rw [← Block.flatMap_nodesFrom_partition g.nodeCount hparts, findSome?_flatMap]
  cases hroom : failure? (reserve g.labelCount rowBytes) with
  | none =>
      have hblock : blockFailure? g = fun block =>
          (Network.nodesFrom block.start block.stop).findSome? fun node =>
            (g.scanSteps node).findSome? id := by
        funext block
        rw [blockFailure?, hroom, Option.none_or]
      rw [hblock, Option.none_or]
  | some failure =>
      -- No block gets its rows, so the first one is as far as any scan comes.
      obtain ⟨block, rest, hblocks⟩ := exists_cons_partition g.nodeCount hparts
      rw [hblocks, List.findSome?_cons, blockFailure?, hroom]
      rfl

/-- An extraction that reports the lowest failing block, and the failure of this block. -/
structure FailsWith (g : Network) (parts : Nat) (failure : Failure) (error : Error) : Prop where
  extract_eq : extract g parts .lowest = .error (.error error)
  first : ∃ before block after, Block.partition g.nodeCount parts = before ++ block :: after ∧
    (∀ earlier ∈ before, ∃ s, scan g earlier = .ok s) ∧ scan g block = .error failure ∧
      error = .workerFailed before.length failure.cause

theorem FailsWith.rootCause {parts : Nat} {failure : Failure} {error : Error}
    (h : FailsWith g parts failure error) : error.rootCause = failure.cause.rootCause := by
  obtain ⟨before, block, after, -, -, -, rfl⟩ := h.first
  rfl

/-- If no step fails, the schemas of the blocks make up that of all nodes. -/
theorem extract_eq_ok_of_none (h : g.scanFailure? = none) {parts : Nat} (hparts : parts ≠ 0)
    (hblocks : reserve parts Block.bytes = .ok ()) (reports : Reporting) :
    extract g parts reports = .ok (scanned g ⟨0, g.nodeCount⟩) := by
  have hnone : ∀ block ∈ Block.partition g.nodeCount parts, blockFailure? g block = none :=
    List.findSome?_eq_none_iff.mp ((findSome?_blockFailure? hparts).trans h)
  have hrun : runTasks (fun _ => scan g) (Block.partition g.nodeCount parts) reports =
      .ok ((Block.partition g.nodeCount parts).map (scanned g)) :=
    runTasks_eq_ok fun block hblock => (scan_eq_ok_of_none (hnone block hblock)).1
  -- One pass over all nodes makes both the merged schema and that of the one large block.
  have hcut := foldlM_blocks hnone (labelCount_empty g.labelCount)
  rw [Block.flatMap_nodesFrom_partition g.nodeCount hparts] at hcut
  obtain ⟨-, hcount, hwhole⟩ := scan_eq_ok_of_none (blockFailure?_all.trans h)
  have hmerged := (hwhole _ (labelCount_empty _)).symm.trans hcut
  rw [empty_merge hcount] at hmerged
  rw [extract_eq_map hparts hblocks, hrun]
  exact hmerged.symm

theorem failsWith_of_some {failure : Failure} (h : g.scanFailure? = some failure) {parts : Nat}
    (hparts : parts ≠ 0) (hblocks : reserve parts Block.bytes = .ok ()) :
    ∃ error, FailsWith g parts failure error := by
  obtain ⟨before, block, after, hcut, hfails, hbefore⟩ :=
    List.findSome?_eq_some_iff.mp ((findSome?_blockFailure? hparts).trans h)
  have hscan : ∀ earlier ∈ before, ∃ s, scan g earlier = .ok s := fun earlier hearlier =>
    ⟨_, (scan_eq_ok_of_none (hbefore earlier hearlier)).1⟩
  have hrun : runTasks (fun _ => scan g) (before ++ block :: after) =
      .error (failure.inTask before.length) :=
    runTasks_eq_error hscan (scan_eq_error hfails)
  refine ⟨_, ?_, before, block, after, hcut, hscan, scan_eq_error hfails, failure.inTask_eq _⟩
  rw [extract_eq_map hparts hblocks, hcut, hrun]
  rfl

/-- A block that cannot be scanned fails the extraction, whatever is reported. -/
theorem exists_extract_eq_error {parts : Nat} (hparts : parts ≠ 0)
    (hblocks : reserve parts Block.bytes = .ok ()) {block : Block}
    (hblock : block ∈ Block.partition g.nodeCount parts) {failure : Failure}
    (hfails : scan g block = .error failure) (reports : Reporting) :
    ∃ error, extract g parts reports = .error (.error error) := by
  rw [extract_eq_map hparts hblocks]
  cases hrun : runTasks (fun _ => scan g) (Block.partition g.nodeCount parts) reports with
  | error error => exact ⟨error, rfl⟩
  | ok partials =>
      obtain ⟨s, hs⟩ := ok_of_runTasks hrun block hblock
      rw [hfails] at hs
      cases hs

/-- The number of blocks does not decide how an extraction comes out. Whatever the network
answers, two extractions end with the same schema, that of one scan over all nodes, or they
both fail, and if the lowest failing block is reported, for the reason for which the first
failing step of this scan does. No failure of a block is lost, whatever is reported. -/
theorem extract_cut_anyhow (g : Network) {parts parts' : Nat} (hparts : 1 ≤ parts)
    (hparts' : 1 ≤ parts') (hblocks : reserve parts Block.bytes = .ok ())
    (hblocks' : reserve parts' Block.bytes = .ok ()) :
    ((∃ s, g.scanFailure? = none ∧ scan g ⟨0, g.nodeCount⟩ = .ok s ∧
        ∀ reports, extract g parts reports = .ok s ∧ extract g parts' reports = .ok s) ∨
      ∃ failure error error', g.scanFailure? = some failure ∧
        scan g ⟨0, g.nodeCount⟩ = .error failure ∧
        FailsWith g parts failure error ∧ FailsWith g parts' failure error' ∧
        error.rootCause = failure.cause.rootCause ∧
        error'.rootCause = failure.cause.rootCause) ∧
    ∀ block ∈ Block.partition g.nodeCount parts, ∀ failure, scan g block = .error failure →
      ∀ reports, ∃ error, extract g parts reports = .error (.error error) := by
  have hne := Nat.one_le_iff_ne_zero.mp hparts
  have hne' := Nat.one_le_iff_ne_zero.mp hparts'
  refine ⟨?_, fun block hblock failure hfails =>
    exists_extract_eq_error hne hblocks hblock hfails⟩
  cases h : g.scanFailure? with
  | none =>
      have hwhole := (scan_eq_ok_of_none (blockFailure?_all.trans h)).1
      exact Or.inl ⟨_, rfl, hwhole, fun reports =>
        ⟨extract_eq_ok_of_none h hne hblocks reports,
          extract_eq_ok_of_none h hne' hblocks' reports⟩⟩
  | some failure =>
      obtain ⟨error, herror⟩ := failsWith_of_some h hne hblocks
      obtain ⟨error', herror'⟩ := failsWith_of_some h hne' hblocks'
      exact Or.inr ⟨failure, error, error', rfl, scan_eq_error (blockFailure?_all.trans h), herror,
        herror', herror.rootCause, herror'.rootCause⟩

end Schema

/-- Three nodes, of which the second has labels that cannot be read. An edge without a type
leads from the third to the first. -/
def ListedNetwork.torn : ListedNetwork where
  labels := [[⟨0⟩], [⟨0⟩], [⟨0⟩]]
  outgoing := [[], [], [⟨0⟩]]
  labelCount := 1
  poisoned := some ⟨1⟩

/-- One block stops at the second node; of three blocks the second and the third fail. -/
theorem Schema.extract_cut_anyhow_torn :
    ∃ error error',
      FailsWith ListedNetwork.torn.network 1 (.crash "labels of node 1 are poisoned") error ∧
      FailsWith ListedNetwork.torn.network 3 (.crash "labels of node 1 are poisoned") error' ∧
      error.rootCause = .internal "labels of node 1 are poisoned" ∧
      error'.rootCause = .internal "labels of node 1 are poisoned" := by
  have hfirst : ListedNetwork.torn.network.scanFailure? =
      some (.crash "labels of node 1 are poisoned") := by
    decide +kernel
  obtain ⟨⟨s, hnone, -⟩ | ⟨failure, error, error', hsome, -, h, h', hcause, hcause'⟩, -⟩ :=
    extract_cut_anyhow ListedNetwork.torn.network (show 1 ≤ 1 by decide) (show 1 ≤ 3 by decide)
      rfl rfl
  · rw [hfirst] at hnone
    cases hnone
  · rw [hfirst] at hsome
    cases hsome
    exact ⟨error, error', h, h', hcause, hcause'⟩

end Hetnet
