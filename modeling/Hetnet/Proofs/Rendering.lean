import Mathlib
import Hetnet.Proofs.Engines
import Hetnet.Proofs.KeyOrigins
import Hetnet.Proofs.NamedGraphs
import Hetnet.Proofs.RefusedCalls

/-!
# A key of a named graph is rendered in names

A key is rendered token by token. A token at an even position is looked up among the names of
labels, one at an odd position among those of edge types, and where there is no name the token
stands for itself. In a graph that was built from names this last resort is never taken
(`GraphBuilder.exists_rendersAs`): whatever key an enumeration, a count or the schema comes up
with, it is spelled with labels that some node carries and types that some edge has
(`Graph.Bears`), and these have names.

Different keys are then rendered differently (`RendersAs.eq_of_render_eq`). The rendered text is cut
at the bars again, which needs names without bars, and the name at each position leads back to
one id, because it is known from the position which vocabulary it is from.
-/

namespace Hetnet

/-! ## Tokens by position -/

namespace MetaPath

/-- A token at an even position is a label of the path, one at an odd position an edge type. -/
def TokenOf (labels : List LabelId) (edgeTypes : List EdgeTypeId) (token : List Char)
    (position : Nat) : Prop :=
  position % 2 = 0 ∧ (∃ label ∈ labels, token = label.text.toList) ∨
    position % 2 = 1 ∧ ∃ edgeType ∈ edgeTypes, token = edgeType.text.toList

theorem TokenOf.mono {labels more : List LabelId} {edgeTypes others : List EdgeTypeId}
    {token : List Char} {position : Nat} (h : TokenOf labels edgeTypes token position)
    (hlabels : labels ⊆ more) (htypes : edgeTypes ⊆ others) :
    TokenOf more others token position := by
  rcases h with ⟨heven, label, hlabel, htoken⟩ | ⟨hodd, type, htype, htoken⟩
  · exact .inl ⟨heven, label, hlabels hlabel, htoken⟩
  · exact .inr ⟨hodd, type, htypes htype, htoken⟩

theorem tokenOf_of_mem_zipIdx_stepTokens {steps : List (EdgeTypeId × LabelId)} {first : Nat}
    (hodd : first % 2 = 1) {token : List Char} {position : Nat}
    (h : (token, position) ∈ ((stepTokens steps).map String.toList).zipIdx first) :
    TokenOf (steps.map Prod.snd) (steps.map Prod.fst) token position := by
  induction steps generalizing first with
  | nil => cases h
  | cons step rest ih =>
      replace h : (token, position) ∈ (step.1.text.toList, first) ::
          (step.2.text.toList, first + 1) ::
            ((stepTokens rest).map String.toList).zipIdx (first + 1 + 1) := h
      rcases List.mem_cons.mp h with heq | h
      · cases heq
        exact .inr ⟨hodd, step.1, List.mem_cons_self, rfl⟩
      · rcases List.mem_cons.mp h with heq | h
        · cases heq
          exact .inl ⟨by omega, step.2, List.mem_cons_self, rfl⟩
        · exact (ih (by omega) h).mono (List.subset_cons_self _ _) (List.subset_cons_self _ _)

/-- The tokens of a well-formed key are its labels and edge types in turn. -/
theorem WellFormed.tokenOf {K : MetaPath} (h : K.WellFormed) {token : List Char} {position : Nat}
    (htoken : (token, position) ∈ K.tokens.zipIdx) :
    TokenOf K.labels K.edgeTypes token position := by
  obtain ⟨start, steps, rfl⟩ := h.exists_steps
  rw [tokens_ofSteps] at htoken
  rw [labels_ofSteps, edgeTypes_ofSteps]
  rcases List.mem_cons.mp htoken with heq | hrest
  · cases heq
    exact .inl ⟨rfl, start, List.mem_cons_self, rfl⟩
  · exact (tokenOf_of_mem_zipIdx_stepTokens rfl hrest).mono (List.subset_cons_self _ _)
      (List.Subset.refl _)

theorem tokens_ne_nil (K : MetaPath) : K.tokens ≠ [] := List.splitOn_ne_nil _ _

theorem tokens_inj {K L : MetaPath} (h : K.tokens = L.tokens) : K = L := by
  have hkey : ∀ M : MetaPath, M.key.toList = [separator].intercalate M.tokens := fun M =>
    (List.intercalate_splitOn separator).symm
  have hsame : K.key.toList = L.key.toList := by rw [hkey, hkey, h]
  cases K
  cases L
  exact congrArg MetaPath.mk (String.toList_inj.mp hsame)

end MetaPath

/-! ## Keys that a graph bears -/

/-- A key whose labels are carried by nodes and whose edge types join nodes. -/
structure Graph.Bears (g : Graph) (K : MetaPath) : Prop where
  wellFormed : K.WellFormed
  labels : ∀ label ∈ K.labels, ∃ node, label ∈ g.labels node
  edgeTypes : ∀ edgeType ∈ K.edgeTypes, ∃ src dst, g.edgeType src dst = .ok edgeType

/-- The keys that come out of a network: listed, counted, or derived from its schema. -/
inductive Network.Produces (g : Network) : MetaPath → Prop
  | listed {e : Enumerator} (hnetwork : e.network = g) {request : Request}
      {settings : SearchSettings} {r : EnumerationResult} {K : MetaPath}
      (h : e.enumerate request settings = .ok r) (hK : K ∈ r.paths) : Produces g K
  | counted {e : Enumerator} (hnetwork : e.network = g) {request : Request}
      {settings : SearchSettings} {o : Occurrences} {K : MetaPath}
      (h : e.occurrences request settings = .ok o) (hK : K ∈ o.tally) : Produces g K
  | inferred {e : Engine} (hnetwork : e.network = g) {maxLength : Nat} {mode : LengthMode}
      {paths : MetaPathSet} {K : MetaPath} (h : e.schemaMetaPaths maxLength mode = .ok paths)
      (hK : K ∈ paths) : Produces g K

theorem Enumerator.Writes.bears {e : Enumerator} {settings : SearchSettings} {request : Request}
    {K : MetaPath} (h : e.Writes settings request K) {g : Graph}
    (hnetwork : e.network = g.network) : g.Bears K := by
  obtain ⟨start, walk, hwalk, hpath⟩ := h.recorded
  obtain ⟨-, hanswers⟩ := h.spells start walk hwalk hpath
  rw [hnetwork] at hanswers
  refine ⟨MetaPath.wellFormed_of_parse h.fits.parse, fun label hlabel => ?_, fun type htype => ?_⟩
  · obtain ⟨node, -, known, hknown, hmem⟩ := Text.exists_of_mem_forall₂ hanswers.labels hlabel
    cases hknown
    exact ⟨node, hmem⟩
  · obtain ⟨step, -, hstep⟩ := Text.exists_of_mem_forall₂ hanswers.edgeTypes htype
    exact ⟨step.1, step.2, ok_of_liftM hstep⟩

namespace Schema

/-- What holds of the ends and types of all links holds along every path of links. -/
theorem forall_of_allows {s : Schema} {P : LabelId → Prop} {Q : EdgeTypeId → Prop}
    (hlinks : ∀ a b edgeType, s.contains a b edgeType = true → P a ∧ P b ∧ Q edgeType)
    {start : LabelId} {steps : List (EdgeTypeId × LabelId)} (hstart : P start)
    (h : s.Allows start steps) :
    (∀ label ∈ start :: steps.map Prod.snd, P label) ∧ ∀ type ∈ steps.map Prod.fst, Q type := by
  induction steps generalizing start with
  | nil => exact ⟨by simpa using hstart, by simp⟩
  | cons step rest ih =>
      obtain ⟨hlink, hrest⟩ := h
      obtain ⟨-, hnext, htype⟩ := hlinks _ _ _ hlink
      obtain ⟨hlabels, htypes⟩ := ih hnext hrest
      exact ⟨List.forall_mem_cons.mpr ⟨hstart, hlabels⟩, List.forall_mem_cons.mpr ⟨htype, htypes⟩⟩

/-- An extraction that succeeds has found room for its blocks and rows. -/
theorem rooms_of_extract {g : Network} {parts : Nat} {reports : Reporting} {s : Schema}
    (h : extract g parts reports = .ok s) :
    parts ≠ 0 ∧ reserve parts Block.bytes = .ok () ∧ reserve g.labelCount rowBytes = .ok () := by
  rw [extract] at h
  split at h
  · cases h
  · next hparts =>
      obtain ⟨_, hblocks, h⟩ := ok_of_bind h
      obtain ⟨partials, hrun, -⟩ := ok_of_bind h
      refine ⟨hparts, hblocks, ?_⟩
      -- There is a first block, and its rows are there.
      have hfirst : 0 ∈ List.range parts := List.mem_range.mpr (Nat.pos_of_ne_zero hparts)
      obtain ⟨_, hscan⟩ := ok_of_runTasks (ok_of_liftM hrun) _ (List.mem_map_of_mem hfirst)
      obtain ⟨_, hrows, -⟩ := ok_of_bind hscan
      exact hrows

end Schema

namespace GraphBuilder

/-- The links of an extracted schema are those of the edges, if there was room to extract it. -/
theorem contains_iff_of_extract {calls : List BuilderCall} {parts : Nat}
    {reports : Reporting} {s : Schema}
    (h : Schema.extract (ofCalls calls).build.network parts reports = .ok s) (a b : LabelId)
    (edgeType : EdgeTypeId) : s.contains a b edgeType = true ↔
      ∃ src dst, (⟨src, dst⟩, edgeType) ∈ (ofCalls calls).build.edges ∧
        (a ∈ (ofCalls calls).build.labels src ∧ b ∈ (ofCalls calls).build.labels dst ∨
          b ∈ (ofCalls calls).build.labels src ∧ a ∈ (ofCalls calls).build.labels dst) := by
  obtain ⟨additions, -, hrecords⟩ := records_ofCalls calls
  obtain ⟨hparts, hblocks, hrows⟩ := Schema.rooms_of_extract h
  obtain ⟨found, hfound, -, hlinks⟩ := Schema.extract_eq_ok
    (readable_build (ofCalls calls) .outgoing) (labelsBounded_build hrecords) hrows hparts hblocks
  obtain rfl := Except.ok.inj ((hfound reports).symm.trans h)
  exact (hlinks a b edgeType).trans (hrecords.exists_linksFrom_iff (consistent_ofCalls calls))

theorem edgeType_of_mem_edges {g : Graph} {arc : Arc} {edgeType : EdgeTypeId}
    (h : (arc, edgeType) ∈ g.edges) : g.edgeType arc.src arc.dst = .ok edgeType := by
  rw [Graph.edgeType_eq_ok_iff, (Graph.mem_edges.mp h).2.2]
  rfl

theorem bears_of_extract {calls : List BuilderCall} {parts : Nat}
    {reports : Reporting} {s : Schema}
    (h : Schema.extract (ofCalls calls).build.network parts reports = .ok s) {mode : LengthMode}
    {maxLength : Nat} {K : MetaPath} (hK : s.Writes mode maxLength K) :
    (ofCalls calls).build.Bears K := by
  obtain ⟨start, steps, -, hallows, rfl, hlabels, htypes⟩ := hK.spells
  have hlinks : ∀ a b edgeType, s.contains a b edgeType = true →
      (∃ node, a ∈ (ofCalls calls).build.labels node) ∧
        (∃ node, b ∈ (ofCalls calls).build.labels node) ∧
          ∃ src dst, (ofCalls calls).build.edgeType src dst = .ok edgeType := by
    intro a b edgeType hlink
    obtain ⟨src, dst, hedge, hends⟩ := (contains_iff_of_extract h a b edgeType).mp hlink
    have htype : (ofCalls calls).build.edgeType src dst = .ok edgeType :=
      edgeType_of_mem_edges hedge
    rcases hends with ⟨ha, hb⟩ | ⟨hb, ha⟩
    · exact ⟨⟨src, ha⟩, ⟨dst, hb⟩, src, dst, htype⟩
    · exact ⟨⟨dst, ha⟩, ⟨src, hb⟩, src, dst, htype⟩
  -- A key has a step, and the start label is at one end of its link.
  have hstart : ∃ node, start ∈ (ofCalls calls).build.labels node := by
    cases steps with
    | nil =>
        have hthree := hK.fits.tokens.1
        rw [MetaPath.length_tokens_ofSteps] at hthree
        simp at hthree
    | cons step rest => exact (hlinks _ _ _ hallows.1).1
  obtain ⟨hcarried, hjoined⟩ := Schema.forall_of_allows hlinks hstart hallows
  exact ⟨MetaPath.wellFormed_ofSteps start steps, hlabels ▸ hcarried, htypes ▸ hjoined⟩

/-- Every key that comes out of a built graph is spelled with what its nodes and edges bear. -/
theorem bears_of_produces {calls : List BuilderCall} {K : MetaPath}
    (h : (ofCalls calls).build.network.Produces K) : (ofCalls calls).build.Bears K := by
  cases h with
  | listed hnetwork h hK => exact (Enumerator.writes_of_enumerate h hK).bears hnetwork
  | counted hnetwork h hK => exact (Enumerator.writes_of_occurrences h hK).bears hnetwork
  | inferred hnetwork h hK =>
      obtain ⟨s, hschema, hpaths⟩ := ok_of_bind h
      rw [Engine.schema, hnetwork] at hschema
      exact bears_of_extract hschema (Schema.writes_of_metaPaths hpaths hK)

/-! ## Names by position -/

variable {declarations : List Declaration}

/-- The name of a token at its position: that of a label at an even position, of an edge type at an
odd one, and the name that the id was given when it was added. -/
inductive Names (declarations : List Declaration) (token : List Char) (position : Nat)
    (name : String) : Prop
  | label {label : LabelId} (heven : position % 2 = 0) (htoken : token = label.text.toList)
      (hname : (ofDeclarations declarations).labelNames.name? label = some name)
      (hgiven : LabelGiven declarations name label)
  | edgeType {edgeType : EdgeTypeId} (hodd : position % 2 = 1)
      (htoken : token = edgeType.text.toList)
      (hname : (ofDeclarations declarations).edgeTypeNames.name? edgeType = some name)
      (hgiven : TypeGiven declarations name edgeType)

/-- The text of a key in the names of a graph. -/
def rendered (declarations : List Declaration) (K : MetaPath) : String :=
  K.render (ofDeclarations declarations).build.labelNames
    (ofDeclarations declarations).build.edgeTypeNames

/-- A key that is rendered in names, one for each of its tokens. -/
structure RendersAs (declarations : List Declaration) (K : MetaPath) (names : List String) :
    Prop where
  tokens : List.Forall₂ (fun entry name => Names declarations entry.1 entry.2 name)
    K.tokens.zipIdx names
  text : rendered declarations K = MetaPath.separator.toString.intercalate names

/-- Names that can be told apart in a text that is joined by bars. -/
structure WithoutBars (declarations : List Declaration) : Prop where
  labels : ∀ label name, (ofDeclarations declarations).labelNames.name? label = some name →
    MetaPath.separator ∉ name.toList
  edgeTypes : ∀ edgeType name,
    (ofDeclarations declarations).edgeTypeNames.name? edgeType = some name →
      MetaPath.separator ∉ name.toList

theorem Names.tokenName {token : List Char} {position : Nat} {name : String}
    (h : Names declarations token position name) :
    MetaPath.tokenName (ofDeclarations declarations).build.labelNames
      (ofDeclarations declarations).build.edgeTypeNames token position = name := by
  cases h with
  | @label label heven htoken hname _ =>
      have hread : (Text.readId? token : Option LabelId) = some label := by
        rw [htoken, TypedId.readId?_text, TypedId.ofIndex_index]
      show Option.getD (if position % 2 = 0 then _ else _) _ = name
      rw [if_pos heven, hread]
      show Option.getD ((ofDeclarations declarations).labelNames.name? label) _ = name
      rw [hname]
      rfl
  | @edgeType edgeType hodd htoken hname _ =>
      have hread : (Text.readId? token : Option EdgeTypeId) = some edgeType := by
        rw [htoken, TypedId.readId?_text, TypedId.ofIndex_index]
      show Option.getD (if position % 2 = 0 then _ else _) _ = name
      rw [if_neg (by omega), hread]
      show Option.getD ((ofDeclarations declarations).edgeTypeNames.name? edgeType) _ = name
      rw [hname]
      rfl

theorem Names.separator_not_mem {token : List Char} {position : Nat} {name : String}
    (h : Names declarations token position name) (hbars : WithoutBars declarations) :
    MetaPath.separator ∉ name.toList := by
  cases h with
  | label _ _ hname _ => exact hbars.labels _ _ hname
  | edgeType _ _ hname _ => exact hbars.edgeTypes _ _ hname

theorem eq_of_forall₂_zipIdx {α β : Type} {R : α → Nat → β → Prop}
    (hR : ∀ {a a' position b}, R a position b → R a' position b → a = a') {list others : List α}
    {outputs : List β} {first : Nat}
    (h : List.Forall₂ (fun entry b => R entry.1 entry.2 b) (list.zipIdx first) outputs)
    (hothers : List.Forall₂ (fun entry b => R entry.1 entry.2 b) (others.zipIdx first) outputs) :
    list = others := by
  induction outputs generalizing list others first with
  | nil =>
      rw [List.forall₂_nil_right_iff, List.zipIdx_eq_nil_iff] at h hothers
      rw [h, hothers]
  | cons b rest ih =>
      cases list with
      | nil => cases h
      | cons a list =>
          cases others with
          | nil => cases hothers
          | cons a' others =>
              rw [List.zipIdx_cons, List.forall₂_cons] at h hothers
              obtain rfl : a = a' := hR h.1 hothers.1
              rw [ih h.2 hothers.2]

section

variable (hlabels : (ofDeclarations declarations).labelNames.size ≤ UInt32.size)
  (htypes : (ofDeclarations declarations).edgeTypeNames.size ≤ UInt32.size)
include hlabels htypes

theorem exists_names_of_bears {K : MetaPath} (h : (ofDeclarations declarations).build.Bears K)
    {token : List Char} {position : Nat} (htoken : (token, position) ∈ K.tokens.zipIdx) :
    ∃ name, Names declarations token position name := by
  rcases h.wellFormed.tokenOf htoken with ⟨heven, label, hlabel, rfl⟩ | ⟨hodd, type, htype, rfl⟩
  · obtain ⟨node, hnode⟩ := h.labels label hlabel
    obtain ⟨name, hid, hgiven⟩ := exists_name_of_label hnode
    exact ⟨name, .label heven rfl ((Vocabulary.name?_eq_some_iff hlabels).mpr hid) hgiven⟩
  · obtain ⟨src, dst, hedge⟩ := h.edgeTypes type htype
    obtain ⟨name, hid, hgiven⟩ := exists_name_of_edgeType hedge
    exact ⟨name, .edgeType hodd rfl ((Vocabulary.name?_eq_some_iff htypes).mpr hid) hgiven⟩

/-- Every token of a key that the graph bears is rendered as its name. -/
theorem exists_rendersAs {K : MetaPath} (h : (ofDeclarations declarations).build.Bears K) :
    ∃ names, RendersAs declarations K names := by
  refine ⟨_, List.forall₂_map_right_iff.mpr (List.forall₂_same.mpr fun entry hentry => ?_), rfl⟩
  obtain ⟨name, hname⟩ := exists_names_of_bears hlabels htypes h hentry
  have htoken := hname.tokenName
  dsimp only
  rw [htoken]
  exact hname

/-- A name at a position comes from one token only. -/
theorem Names.unique {token other : List Char} {position : Nat} {name : String}
    (h : Names declarations token position name) (hother : Names declarations other position name) :
    token = other := by
  cases h with
  | label heven htoken hname _ =>
      cases hother with
      | label _ htoken' hname' _ =>
          rw [Vocabulary.name?_eq_some_iff hlabels] at hname hname'
          rw [htoken, htoken', Option.some.inj (hname.symm.trans hname')]
      | edgeType hodd _ _ _ => omega
  | edgeType hodd htoken hname _ =>
      cases hother with
      | label heven _ _ _ => omega
      | edgeType _ htoken' hname' _ =>
          rw [Vocabulary.name?_eq_some_iff htypes] at hname hname'
          rw [htoken, htoken', Option.some.inj (hname.symm.trans hname')]

/-- Keys that are rendered in names without bars are told apart by what is rendered. -/
theorem RendersAs.eq_of_render_eq {K L : MetaPath} {names others : List String}
    (h : RendersAs declarations K names) (hother : RendersAs declarations L others)
    (hbars : WithoutBars declarations)
    (hsame : rendered declarations K = rendered declarations L) : K = L := by
  have hcut : ∀ {M : MetaPath} {list : List String}, RendersAs declarations M list →
      (rendered declarations M).toList.splitOn MetaPath.separator =
        list.map String.toList := by
    intro M list hM
    rw [hM.text, String.toList_intercalate]
    refine List.splitOn_intercalate MetaPath.separator (fun text htext => ?_) fun hnil => ?_
    · obtain ⟨name, hname, rfl⟩ := List.mem_map.mp htext
      obtain ⟨entry, -, hentry⟩ := Text.exists_of_mem_forall₂ hM.tokens hname
      exact hentry.separator_not_mem hbars
    · have hlength := hM.tokens.length_eq
      rw [List.map_eq_nil_iff.mp hnil, List.length_zipIdx] at hlength
      exact M.tokens_ne_nil (List.length_eq_zero_iff.mp hlength)
  have hnames : names = others := by
    refine List.map_injective_iff.mpr (fun _ _ => String.toList_inj.mp) ?_
    rw [← hcut h, ← hcut hother, hsame]
  rw [← hnames] at hother
  refine MetaPath.tokens_inj (eq_of_forall₂_zipIdx ?_ h.tokens hother.tokens)
  exact fun hname hname' => Names.unique hlabels htypes hname hname'

end

/-! ## A node that is joined to itself -/

/-- A node with one label and an edge from it to itself. -/
def selfLoop : List Declaration := [.node ⟨1⟩ ["A"], .edge ⟨1⟩ ⟨1⟩ "T"]

/-- The tables of the node and its edge. -/
def looped : GraphBuilder where
  labelNames := ⟨Numbering.push ∅ "A" (Numbering.position?_empty "A")⟩
  edgeTypeNames := ⟨Numbering.push ∅ "T" (Numbering.position?_empty "T")⟩
  nodes := ⟨Numbering.push ∅ (⟨1⟩ : ExternalId) (Numbering.position?_empty _)⟩
  nodeLabels := #[[⟨0⟩]]
  edgeTypes := Std.ExtTreeMap.insert ∅ ⟨⟨0⟩, ⟨0⟩⟩ ⟨0⟩
  labelBound := 1
  edgeTypeBound := 1

theorem addEdge_looped :
    (ofCalls [.addNode ⟨1⟩ ["A"]]).addEdge ⟨1⟩ ⟨1⟩ "T" = (.ok (), looped) := by
  have hfirst := ofCalls_addNode ⟨1⟩ "A"
  have hnode : (ofCalls [.addNode ⟨1⟩ ["A"]]).nodes.node? ⟨1⟩ = some ⟨0⟩ := by
    rw [hfirst, NodeTable.node?, Numbering.position?_push, if_pos BEq.rfl]
    rfl
  have harc : (ofCalls [.addNode ⟨1⟩ ["A"]]).resolveArc ⟨1⟩ ⟨1⟩ = .ok ⟨⟨0⟩, ⟨0⟩⟩ :=
    resolveArc_eq_ok_iff.mpr ⟨hnode, hnode⟩
  have hintern : (∅ : Vocabulary .edgeType).intern "T" =
      (⟨0⟩, ⟨Numbering.push ∅ "T" (Numbering.position?_empty "T")⟩) := by
    show (TypedId.ofIndex ((∅ : Numbering String).intern "T").1,
      Vocabulary.mk ((∅ : Numbering String).intern "T").2) = _
    rw [Numbering.intern_of_eq_none (Numbering.position?_empty "T")]
    rfl
  rw [addEdge, harc]
  dsimp only
  rw [hfirst, hintern]
  rfl

theorem ofDeclarations_selfLoop : ofDeclarations selfLoop = looped :=
  congrArg Prod.snd addEdge_looped

theorem readGraph_selfLoop : Text.readGraph "node 1 A\nedge 1 1 T" = .ok looped.build := by
  have hlines : Text.significantLines "node 1 A\nedge 1 1 T" =
      [(1, [['n', 'o', 'd', 'e'], ['1'], ['A']]),
        (2, [['e', 'd', 'g', 'e'], ['1'], ['1'], ['T']])] := by
    decide +kernel
  have hone : Text.Numeral ['1'] 1 := Text.numeral_toDigits 1
  have hnew : ({} : GraphBuilder).nodes.node? ⟨1⟩ = none :=
    congrArg (Option.map TypedId.ofIndex) (Numbering.position?_empty _)
  have hnode : Text.addElement {} [['n', 'o', 'd', 'e'], ['1'], ['A']] =
      .ok (ofCalls [.addNode ⟨1⟩ ["A"]]) :=
    Text.addElement_eq_ok_iff.mpr ⟨.node ⟨1⟩ ["A"], .node hone,
      accepts_addNode_iff.mpr ⟨by simp, hnew, by decide⟩, rfl⟩
  have hedge : Text.addElement (ofCalls [.addNode ⟨1⟩ ["A"]])
      [['e', 'd', 'g', 'e'], ['1'], ['1'], ['T']] = .ok looped :=
    Text.addElement_eq_ok_iff.mpr ⟨.edge ⟨1⟩ ⟨1⟩ "T", .edge hone hone,
      congrArg (fun answer => answer.1.isOk) addEdge_looped,
      (congrArg Prod.snd addEdge_looped).symm⟩
  rw [Text.readGraph, hlines]
  refine bind_eq_ok ?_ rfl
  rw [List.foldlM_cons]
  refine bind_eq_ok (congrArg (Except.mapError (TextError.mk 1)) hnode) ?_
  rw [List.foldlM_cons]
  exact bind_eq_ok (congrArg (Except.mapError (TextError.mk 2)) hedge) rfl

theorem withoutBars_selfLoop : WithoutBars selfLoop := by
  have hname : ∀ {i : Nat} {only name : String},
      (Numbering.push ∅ only (Numbering.position?_empty only)).key? i = some name →
        name = only := by
    intro i only name h
    replace h : (#[].push only)[i]? = some name := h
    rw [Array.getElem?_push] at h
    split at h
    · exact (Option.some.inj h).symm
    · cases h
  constructor
  · intro label name h
    rw [ofDeclarations_selfLoop] at h
    rw [hname h]
    decide
  · intro edgeType name h
    rw [ofDeclarations_selfLoop] at h
    rw [hname h]
    decide

/-- Every graph that is read from a text is built from declarations. In a graph that is built from
declarations, with no more names than there are ids, every key that comes out is rendered token
by token in the names that were declared; and if no name contains a bar, different keys are
rendered differently. -/
theorem render_faithful :
    (∀ text g, Text.readGraph text = .ok g →
      ∃ declarations, g = (ofDeclarations declarations).build) ∧
    ∀ declarations, (ofDeclarations declarations).labelNames.size ≤ UInt32.size →
      (ofDeclarations declarations).edgeTypeNames.size ≤ UInt32.size →
        (∀ K, (ofDeclarations declarations).build.network.Produces K →
          ∃ names, RendersAs declarations K names) ∧
        (WithoutBars declarations → ∀ K L,
          (ofDeclarations declarations).build.network.Produces K →
            (ofDeclarations declarations).build.network.Produces L →
              rendered declarations K = rendered declarations L → K = L) := by
  refine ⟨fun text g => Text.exists_declarations_of_readGraph, ?_⟩
  intro declarations hlabels htypes
  have hrenders : ∀ K, (ofDeclarations declarations).build.network.Produces K →
      ∃ names, RendersAs declarations K names := fun K hK =>
    exists_rendersAs hlabels htypes (bears_of_produces hK)
  refine ⟨hrenders, fun hbars K L hK hL hsame => ?_⟩
  obtain ⟨names, hnames⟩ := hrenders K hK
  obtain ⟨others, hothers⟩ := hrenders L hL
  exact hnames.eq_of_render_eq hlabels htypes hothers hbars hsame

/-- The graph is read from a text. To walk once and twice along its edge gives two keys, which are
rendered in the names of the text. -/
theorem render_faithful_selfLoop :
    (∃ declarations, looped.build = (ofDeclarations declarations).build) ∧
      (∃ names, RendersAs selfLoop ⟨"0|0|0"⟩ names) ∧ rendered selfLoop ⟨"0|0|0"⟩ = "A|T|A" ∧
        rendered selfLoop ⟨"0|0|0"⟩ ≠ rendered selfLoop ⟨"0|0|0|0|0"⟩ := by
  obtain ⟨htext, hgraph⟩ := render_faithful
  have hanswer : Enumerator.CanAnswer { network := (ofDeclarations selfLoop).build.network }
      { maxLength := 2 } (.walksFrom ⟨0⟩) := by
    refine ⟨by decide +kernel, by decide, ?_, readable_build _ _, fun _ hsink => by cases hsink⟩
    rw [ofDeclarations_selfLoop]
    rfl
  have hlisted := Enumerator.enumerate_eq_ok hanswer
  have hproduces : ∀ K ∈ [(⟨"0|0|0"⟩ : MetaPath), ⟨"0|0|0|0|0"⟩],
      (ofDeclarations selfLoop).build.network.Produces K := by
    intro K hK
    refine .listed rfl hlisted ((Enumerator.mem_paths_resultOf rfl (.walksFrom ⟨0⟩) K).mpr ?_)
    rw [ofDeclarations_selfLoop]
    revert K
    decide +kernel
  have honce := hproduces ⟨"0|0|0"⟩ (by decide)
  have htwice := hproduces ⟨"0|0|0|0|0"⟩ (by decide)
  have hroom : looped.labelNames.size ≤ UInt32.size ∧ looped.edgeTypeNames.size ≤ UInt32.size :=
    ⟨by decide, by decide⟩
  rw [← ofDeclarations_selfLoop] at hroom
  obtain ⟨hnames, hdiffer⟩ := hgraph selfLoop hroom.1 hroom.2
  refine ⟨htext _ _ readGraph_selfLoop, hnames _ honce, ?_, fun hsame => ?_⟩
  · rw [rendered, ofDeclarations_selfLoop]
    decide +kernel
  · exact absurd (hdiffer withoutBars_selfLoop _ _ honce htwice hsame) (by decide)

end GraphBuilder

end Hetnet
