import Mathlib
import Hetnet.Proofs.Declarations
import Hetnet.Proofs.Lines
import Hetnet.Proofs.Numerals

/-!
# The reader of graphs accepts its format and nothing else

A text conforms when each of its significant lines has the fields of a declaration and the
declarations are in order (`Text.Conforms`). The reader succeeds on these texts and on no
others, and the graph that it returns shows what was declared, told by names and external
ids. It fails at the first line with which the text stops to conform.

All of this is one induction from the end of the text (`Text.tracks_readLines`). Up to some
line the reader has a builder that took what the lines declare; the next line is passed over,
or declares something, and then the builder accepts it exactly when the lines with this line
conform.

Nodes, labels and edge types are numbered while they are read, so a text has to leave room for
their ids. Every text that is shorter than the range of ids does (`Text.room_of_length_lt`).
-/

namespace Hetnet

namespace Text

/-! ## Lines that declare something -/

/-- What the fields of a line declare. -/
inductive Declares : List (List Char) → Declaration → Prop
  | node {token labels : List Char} {id : ExternalId} (hid : Numeral token id.raw.toNat) :
      Declares [['n', 'o', 'd', 'e'], token, labels] (.node id (commaList labels))
  | edge {first second type : List Char} {src dst : ExternalId}
      (hsrc : Numeral first src.raw.toNat) (hdst : Numeral second dst.raw.toNat) :
      Declares [['e', 'd', 'g', 'e'], first, second, type] (.edge src dst (String.ofList type))

theorem readNodeId_eq_ok_iff {token : List Char} {id : ExternalId} :
    readNodeId token = .ok id ↔ Numeral token id.raw.toNat := by
  have hnumber : Numeral token id.raw.toNat ↔
      readNumber UInt64.size token = .ok id.raw.toNat := by
    rw [readNumber_eq_ok_iff (by decide), and_iff_left id.raw.toNat_lt_size]
  rw [hnumber, readNodeId, readExternal]
  cases hread : readNumber UInt64.size token with
  | error fault => exact iff_of_false (fun h => by cases h) fun h => by cases h
  | ok value =>
      have hlt := ((readNumber_eq_ok_iff (by decide)).mp hread).2
      constructor
      · intro h
        cases h
        exact congrArg Except.ok (UInt64.toNat_ofNat_of_lt hlt).symm
      · intro h
        cases h
        cases id
        exact congrArg Except.ok (congrArg ExternalId.mk UInt64.ofNat_toNat)

theorem Declares.unique {fields : List (List Char)} {declaration other : Declaration}
    (h : Declares fields declaration) (hother : Declares fields other) : declaration = other := by
  have hid : ∀ {token : List Char} {id id' : ExternalId}, Numeral token id.raw.toNat →
      Numeral token id'.raw.toNat → id = id' := by
    intro token id id' h h'
    rw [← readNodeId_eq_ok_iff] at h h'
    exact Except.ok.inj (h.symm.trans h')
  cases h with
  | node hfirst =>
      cases hother with
      | node hsecond => rw [hid hfirst hsecond]
  | edge hsrc hdst =>
      cases hother with
      | edge hsrc' hdst' => rw [hid hsrc hsrc', hid hdst hdst']

theorem addElement_node (b : GraphBuilder) {token : List Char} {id : ExternalId}
    (hid : readNodeId token = .ok id) (labels : List Char) :
    addElement b [['n', 'o', 'd', 'e'], token, labels] =
      ((b.addNode id (commaList labels)).1.mapError .refused).map
        fun _ => (b.addNode id (commaList labels)).2 := by
  rw [addElement, hid]
  dsimp only [bind, Except.bind]
  rcases b.addNode id (commaList labels) with ⟨error | node, grown⟩ <;> rfl

theorem addElement_edge (b : GraphBuilder) {first second : List Char} {src dst : ExternalId}
    (hsrc : readNodeId first = .ok src) (hdst : readNodeId second = .ok dst) (type : List Char) :
    addElement b [['e', 'd', 'g', 'e'], first, second, type] =
      ((b.addEdge src dst (String.ofList type)).1.mapError .refused).map
        fun _ => (b.addEdge src dst (String.ofList type)).2 := by
  rw [addElement, hsrc, hdst]
  dsimp only [bind, Except.bind]
  rcases b.addEdge src dst (String.ofList type) with ⟨error | _, grown⟩ <;> rfl

theorem refused_or_grown_eq_ok_iff {α : Type} {answer : Except Error α} {grown b : GraphBuilder} :
    (answer.mapError LineFault.refused).map (fun _ => grown) = .ok b ↔
      answer.isOk = true ∧ b = grown := by
  cases answer with
  | error error => exact iff_of_false (fun h => by cases h) fun h => by cases h.1
  | ok value => exact ⟨fun h => ⟨rfl, (Except.ok.inj h).symm⟩, fun h => congrArg Except.ok h.2.symm⟩

/-- A line is taken when it declares something and the builder accepts the call for it. -/
theorem addElement_eq_ok_iff {b grown : GraphBuilder} {fields : List (List Char)} :
    addElement b fields = .ok grown ↔
      ∃ declaration, Declares fields declaration ∧ b.accepts declaration.call = true ∧
        grown = b.after declaration.call := by
  constructor
  · intro h
    have hfields := h
    rw [addElement.eq_def] at hfields
    split at hfields
    · next token labels =>
        obtain ⟨id, hid, -⟩ := ok_of_bind hfields
        rw [addElement_node b hid, refused_or_grown_eq_ok_iff] at h
        exact ⟨_, .node (readNodeId_eq_ok_iff.mp hid), h⟩
    · next first second type =>
        obtain ⟨src, hsrc, hfields⟩ := ok_of_bind hfields
        obtain ⟨dst, hdst, -⟩ := ok_of_bind hfields
        rw [addElement_edge b hsrc hdst, refused_or_grown_eq_ok_iff] at h
        exact ⟨_, .edge (readNodeId_eq_ok_iff.mp hsrc) (readNodeId_eq_ok_iff.mp hdst), h⟩
    · cases hfields
  · intro h
    obtain ⟨declaration, hdeclares, h⟩ := h
    cases hdeclares with
    | node hid =>
        rw [addElement_node b (readNodeId_eq_ok_iff.mpr hid), refused_or_grown_eq_ok_iff]
        exact h
    | edge hsrc hdst =>
        rw [addElement_edge b (readNodeId_eq_ok_iff.mpr hsrc) (readNodeId_eq_ok_iff.mpr hdst),
          refused_or_grown_eq_ok_iff]
        exact h

/-! ## Lines in order -/

/-- What lines say: the fields of those that are significant. -/
def entriesOf (lines : List (List Char)) : List (List (List Char)) :=
  (lines.filter fun line => Significant line).map fields

theorem entriesOf_append (lines : List (List Char)) (line : List Char) :
    entriesOf (lines ++ [line]) =
      entriesOf lines ++ if Significant line then [fields line] else [] := by
  rw [entriesOf, List.filter_append, List.map_append]
  congr 1
  by_cases h : Significant line
  · rw [if_pos h]
    simp [h]
  · rw [if_neg h]
    simp [h]

/-- Lines that declare something in order: every significant line has the fields of a
declaration, and each declaration is admissible after those before it. -/
def Conforms (lines : List (List Char)) (declarations : List Declaration) : Prop :=
  List.Forall₂ Declares (entriesOf lines) declarations ∧ Declaration.InOrder declarations

theorem forall₂_append_singleton {α β : Type} {R : α → β → Prop} {list : List α} {a : α}
    {others : List β} :
    List.Forall₂ R (list ++ [a]) others ↔
      ∃ before b, others = before ++ [b] ∧ List.Forall₂ R list before ∧ R a b := by
  constructor
  · intro h
    rcases List.eq_nil_or_concat others with rfl | ⟨before, b, rfl⟩
    · cases list <;> cases h
    · rw [List.concat_eq_append] at h ⊢
      have hlength : list.length = before.length := by simpa using h.length_eq
      have htake := List.forall₂_take_append _ _ _ h
      have hdrop := List.forall₂_drop_append _ _ _ h
      rw [← hlength] at htake hdrop
      rw [List.take_left] at htake
      rw [List.drop_left, List.forall₂_cons] at hdrop
      exact ⟨before, b, rfl, htake, hdrop.1⟩
  · intro h
    obtain ⟨before, b, rfl, hbefore, hlast⟩ := h
    exact List.rel_append hbefore (.cons hlast .nil)

theorem exists_of_mem_forall₂ {α β : Type} {R : α → β → Prop} {list : List α} {others : List β}
    (h : List.Forall₂ R list others) {b : β} (hb : b ∈ others) : ∃ a ∈ list, R a b := by
  induction h with
  | nil => cases hb
  | cons hfirst _ ih =>
      rcases List.mem_cons.mp hb with rfl | hrest
      · exact ⟨_, List.mem_cons_self, hfirst⟩
      · obtain ⟨a, ha, hab⟩ := ih hrest
        exact ⟨a, List.mem_cons_of_mem _ ha, hab⟩

theorem conforms_append_of_not_significant {lines : List (List Char)} {line : List Char}
    (h : ¬ Significant line) {declarations : List Declaration} :
    Conforms (lines ++ [line]) declarations ↔ Conforms lines declarations := by
  rw [Conforms, Conforms, entriesOf_append, if_neg h, List.append_nil]

theorem conforms_append {lines : List (List Char)} {line : List Char} (h : Significant line)
    {declarations : List Declaration} :
    Conforms (lines ++ [line]) declarations ↔
      ∃ before declaration, declarations = before ++ [declaration] ∧ Conforms lines before ∧
        Declares (fields line) declaration ∧ Declaration.Admissible before declaration := by
  rw [Conforms, entriesOf_append, if_pos h, forall₂_append_singleton]
  constructor
  · intro hconforms
    obtain ⟨⟨before, declaration, rfl, hbefore, hlast⟩, hinOrder⟩ := hconforms
    obtain ⟨hordered, hadmissible⟩ := Declaration.inOrder_append.mp hinOrder
    exact ⟨before, declaration, rfl, ⟨hbefore, hordered⟩, hlast, hadmissible⟩
  · intro hconforms
    obtain ⟨before, declaration, rfl, ⟨hbefore, hordered⟩, hlast, hadmissible⟩ := hconforms
    exact ⟨⟨before, declaration, rfl, hbefore, hlast⟩,
      Declaration.inOrder_append.mpr ⟨hordered, hadmissible⟩⟩

theorem Conforms.unique {lines : List (List Char)} {declarations others : List Declaration}
    (h : Conforms lines declarations) (hothers : Conforms lines others) :
    declarations = others := by
  have hunique : Relator.RightUnique Declares := fun _ _ _ h hother => h.unique hother
  exact List.right_unique_forall₂' hunique h.1 hothers.1

theorem Conforms.of_append {before after : List (List Char)} {declarations : List Declaration}
    (h : Conforms (before ++ after) declarations) : ∃ earlier, Conforms before earlier := by
  induction after using List.reverseRecOn generalizing declarations with
  | nil => exact ⟨declarations, by rwa [List.append_nil] at h⟩
  | append_singleton rest line ih =>
      rw [← List.append_assoc] at h
      by_cases hline : Significant line
      · obtain ⟨earlier, _, -, hearlier, -⟩ := (conforms_append hline).mp h
        exact ih hearlier
      · exact ih ((conforms_append_of_not_significant hline).mp h)

/-- The first line with which lines stop to conform. -/
def FirstFault (before : List (List Char)) (line : List Char) : Prop :=
  (∃ declarations, Conforms before declarations) ∧
    ¬ ∃ declarations, Conforms (before ++ [line]) declarations

theorem FirstFault.append {before after : List (List Char)} {line : List Char}
    (h : FirstFault before line) {declarations : List Declaration} :
    ¬ Conforms (before ++ line :: after) declarations := by
  intro hconforms
  rw [List.append_cons] at hconforms
  exact h.2 hconforms.of_append

/-! ## The run of the reader -/

/-- The declarations that lines can make, in order or not. -/
def declarable (lines : List (List Char)) : Set Declaration :=
  {declaration | ∃ line ∈ lines, Declares (fields line) declaration}

theorem mem_declarable_of_conforms {lines : List (List Char)} {declarations : List Declaration}
    (h : Conforms lines declarations) : ∀ declaration ∈ declarations,
      declaration ∈ declarable lines := by
  intro declaration hmem
  obtain ⟨_, hfields, hdeclares⟩ := exists_of_mem_forall₂ h.1 hmem
  obtain ⟨line, hline, rfl⟩ := List.mem_map.mp hfields
  exact ⟨line, List.mem_of_mem_filter hline, hdeclares⟩

/-- What the reader has after some lines: a builder that took what they declare, or the number of
the line with which they stop to conform. -/
def Tracks (lines : List (List Char)) : Except TextError GraphBuilder → Prop
  | .ok b => ∃ declarations, Conforms lines declarations ∧ b.Took declarations
  | .error error => ∃ before line after, lines = before ++ line :: after ∧
      FirstFault before line ∧ error.line = before.length + 1

/-- The induction is on the lines from the end. The builder after the earlier lines has taken
what they declare, so it accepts what the last line declares exactly when that is
admissible. -/
theorem tracks_readLines {known : Set Declaration} (hroom : Declaration.Room known)
    {lines : List (List Char)} (hknown : declarable lines ⊆ known) :
    Tracks lines (readLines lines) := by
  induction lines using List.reverseRecOn with
  | nil => exact ⟨[], ⟨.nil, Declaration.inOrder_nil⟩, GraphBuilder.took_empty⟩
  | append_singleton lines line ih =>
      have hbefore : declarable lines ⊆ known := fun declaration h => hknown <| by
        obtain ⟨other, hother, hdeclares⟩ := h
        exact ⟨other, List.mem_append_left _ hother, hdeclares⟩
      have hline : ∀ declaration, Declares (fields line) declaration → declaration ∈ known :=
        fun declaration hdeclares => hknown
          ⟨line, List.mem_append_right _ (List.mem_singleton_self line), hdeclares⟩
      specialize ih hbefore
      rw [readLines_append]
      cases hread : readLines lines with
      | error error =>
          rw [hread] at ih
          obtain ⟨before, first, after, rfl, hfault, herror⟩ := ih
          exact ⟨before, first, after ++ [line], by simp, hfault, herror⟩
      | ok b =>
          rw [hread] at ih
          obtain ⟨declarations, hconforms, htook⟩ := ih
          show Tracks _ (if Significant line then _ else _)
          have hdeclarations : ∀ declaration ∈ declarations, declaration ∈ known :=
            fun declaration hmem => hbefore (mem_declarable_of_conforms hconforms declaration hmem)
          split
          · next hsignificant =>
              cases hadd : addElement b (fields line) with
              | ok grown =>
                  obtain ⟨declaration, hdeclares, haccept, rfl⟩ := addElement_eq_ok_iff.mp hadd
                  have hadmissible := (htook.accepts_iff hroom hdeclarations
                    (hline declaration hdeclares)).mp haccept
                  exact ⟨declarations ++ [declaration],
                    (conforms_append hsignificant).mpr
                      ⟨declarations, declaration, rfl, hconforms, hdeclares, hadmissible⟩,
                    htook.after haccept⟩
              | error fault =>
                  refine ⟨lines, line, [], rfl, ⟨⟨declarations, hconforms⟩, ?_⟩, rfl⟩
                  intro hfollows
                  obtain ⟨_, hfollows⟩ := hfollows
                  obtain ⟨earlier, declaration, rfl, hearlier, hdeclares, hadmissible⟩ :=
                    (conforms_append hsignificant).mp hfollows
                  obtain rfl := hearlier.unique hconforms
                  have haccept := (htook.accepts_iff hroom hdeclarations
                    (hline declaration hdeclares)).mpr hadmissible
                  rw [addElement_eq_ok_iff.mpr ⟨declaration, hdeclares, haccept, rfl⟩] at hadd
                  cases hadd
          · next hsignificant =>
              exact ⟨declarations,
                (conforms_append_of_not_significant hsignificant).mpr hconforms, htook⟩

/-! ## Room in short texts -/

theorem sum_length_splitOnP {α : Type} (p : α → Bool) (list : List α) :
    ((list.splitOnP p).map fun part => part.length + 1).sum = list.length + 1 := by
  induction list with
  | nil => rfl
  | cons a rest ih =>
      obtain ⟨first, others, hsplit⟩ := List.exists_cons_of_ne_nil (List.splitOnP_ne_nil p rest)
      rw [List.splitOnP_cons_eq_if_modifyHead]
      rw [hsplit] at ih ⊢
      split
      · simp only [List.map_cons, List.sum_cons, List.length_cons, List.length_nil] at ih ⊢
        omega
      · simp only [List.modifyHead_cons, List.map_cons, List.sum_cons, List.length_cons] at ih ⊢
        omega

theorem encard_le_length {α : Type} {s : Set α} {list : List α} (h : ∀ a ∈ s, a ∈ list) :
    s.encard ≤ list.length := by
  classical
  calc s.encard ≤ (list.toFinset : Set α).encard :=
        Set.encard_le_encard fun a ha => List.mem_toFinset.mpr (h a ha)
    _ = list.toFinset.card := Set.encard_coe_eq_coe_finsetCard _
    _ ≤ list.length := Nat.cast_le.mpr (List.toFinset_card_le list)

/-- The id of the node that a line can declare. -/
def idOf : List (List Char) → Option ExternalId
  | [_, token, _] => (readNodeId token).toOption
  | _ => none

/-- The names that a line can use. -/
def namesOf : List (List Char) → List String
  | [_, _, labels] => commaList labels
  | [_, _, _, type] => [String.ofList type]
  | _ => []

theorem Declares.idOf_eq {fields : List (List Char)} {id : ExternalId} {names : List String}
    (h : Declares fields (.node id names)) : idOf fields = some id := by
  cases h with
  | node hid =>
      rw [idOf, readNodeId_eq_ok_iff.mpr hid]
      rfl

theorem Declares.namesOf_node {fields : List (List Char)} {id : ExternalId} {names : List String}
    (h : Declares fields (.node id names)) : namesOf fields = names := by
  cases h
  rfl

theorem Declares.namesOf_edge {fields : List (List Char)} {src dst : ExternalId} {type : String}
    (h : Declares fields (.edge src dst type)) : namesOf fields = [type] := by
  cases h
  rfl

theorem length_namesOf_fields_le (line : List Char) :
    (namesOf (fields line)).length ≤ line.length + 1 := by
  have hlength : ∀ field ∈ fields line, field.length + 1 ≤ line.length + 1 := by
    intro field hfield
    rw [← sum_length_splitOnP isBlank line]
    exact List.le_sum_of_mem (List.mem_map_of_mem (List.mem_of_mem_filter hfield))
  rw [namesOf.eq_def]
  split
  · next first second labels hfields =>
      rw [hfields] at hlength
      calc (commaList labels).length ≤ (labels.splitOn ',').length := by
            rw [commaList, List.length_map]
            exact List.length_filter_le _ _
        _ = ((labels.splitOn ',').map fun _ => 1).sum := by simp
        _ ≤ ((labels.splitOn ',').map fun part => part.length + 1).sum :=
            List.sum_le_sum fun _ _ => Nat.le_add_left _ _
        _ = labels.length + 1 := sum_length_splitOnP _ labels
        _ ≤ line.length + 1 := hlength labels (by simp)
  · exact Nat.le_add_left _ _
  · exact Nat.zero_le _

/-- A text shorter than the range of ids has room for what it declares: its lines, and the names on
them, take a character each at least, the separators counted. -/
theorem room_of_length_lt {text : String} (h : text.length < UInt32.size) :
    Declaration.Room (declarable (linesOf text)) := by
  have hsum : ((linesOf text).map fun line => line.length + 1).sum ≤ UInt32.size := by
    rw [linesOf, List.splitOn, sum_length_splitOnP, String.length_toList]
    exact h
  have hnames : ((linesOf text).flatMap fun line => namesOf (fields line)).length ≤
      UInt32.size := by
    rw [List.length_flatMap]
    exact le_trans (List.sum_le_sum fun line _ => length_namesOf_fields_le line) hsum
  have hids : ((linesOf text).filterMap fun line => idOf (fields line)).length ≤ UInt32.size :=
    calc ((linesOf text).filterMap fun line => idOf (fields line)).length
        ≤ (linesOf text).length := List.length_filterMap_le _ _
      _ = ((linesOf text).map fun _ => 1).sum := by simp
      _ ≤ ((linesOf text).map fun line => line.length + 1).sum :=
          List.sum_le_sum fun _ _ => Nat.le_add_left _ _
      _ ≤ UInt32.size := hsum
  constructor
  case nodes =>
    refine le_trans (encard_le_length fun id hid => ?_) (Nat.cast_le.mpr hids)
    obtain ⟨names, line, hline, hdeclares⟩ := hid
    exact List.mem_filterMap.mpr ⟨line, hline, hdeclares.idOf_eq⟩
  case labels =>
    refine le_trans (encard_le_length fun name hname => ?_) (Nat.cast_le.mpr hnames)
    obtain ⟨id, names, ⟨line, hline, hdeclares⟩, hname⟩ := hname
    exact List.mem_flatMap.mpr ⟨line, hline, hdeclares.namesOf_node ▸ hname⟩
  case types =>
    refine le_trans (encard_le_length fun type htype => ?_) (Nat.cast_le.mpr hnames)
    obtain ⟨src, dst, line, hline, hdeclares⟩ := htype
    exact List.mem_flatMap.mpr
      ⟨line, hline, hdeclares.namesOf_edge ▸ List.mem_singleton_self type⟩

/-! ## The reader -/

/-- A reader that takes a text if the text conforms, and otherwise names the first line that is
at fault. -/
structure ReadsExactly (text : String) : Prop where
  succeeds : (∃ g, readGraph text = .ok g) ↔
    ∃ declarations, Conforms (linesOf text) declarations
  shows : ∀ g, readGraph text = .ok g →
    ∃ declarations, Conforms (linesOf text) declarations ∧ g.Shows declarations
  fails : ∀ error, readGraph text = .error error →
    ∃ before line after, linesOf text = before ++ line :: after ∧ FirstFault before line ∧
      ∃ reason : String, error.report = s!"line {before.length + 1}: {reason}"
  /-- Lines that say nothing, and the white space between fields, change nothing but the number
  of the line at fault. -/
  ignores : ∀ other, entriesOf (linesOf other) = entriesOf (linesOf text) →
    (readGraph other).mapError TextError.fault = (readGraph text).mapError TextError.fault

theorem mapError_fault_readLines (lines : List (List Char)) :
    (readLines lines).mapError TextError.fault =
      (entriesOf lines).foldlM addElement ({} : GraphBuilder) := by
  induction lines using List.reverseRecOn with
  | nil => rfl
  | append_singleton lines line ih =>
      rw [readLines_append, entriesOf_append, List.foldlM_append, ← ih]
      cases readLines lines with
      | error error => rfl
      | ok b =>
          show Except.mapError _ (if Significant line then _ else _) =
            List.foldlM addElement b (if Significant line then _ else _)
          split
          · rw [List.foldlM_cons]
            cases addElement b (fields line) <;> rfl
          · rfl

theorem mapError_fault_readGraph (text : String) :
    (readGraph text).mapError TextError.fault =
      ((entriesOf (linesOf text)).foldlM addElement ({} : GraphBuilder)).map
        GraphBuilder.build := by
  rw [readGraph_eq, ← mapError_fault_readLines]
  cases readLines (linesOf text) <;> rfl

section

variable {text : String} (hroom : Declaration.Room (declarable (linesOf text)))
include hroom

theorem shows_of_readGraph_eq_ok {g : Graph} (h : readGraph text = .ok g) :
    ∃ declarations, Conforms (linesOf text) declarations ∧ g.Shows declarations := by
  have htracks := tracks_readLines hroom subset_rfl
  rw [readGraph_eq] at h
  cases hlines : readLines (linesOf text) with
  | error error =>
      rw [hlines] at h
      cases h
  | ok b =>
      rw [hlines] at h htracks
      cases h
      obtain ⟨declarations, hconforms, htook⟩ := htracks
      have hknown := mem_declarable_of_conforms hconforms
      exact ⟨declarations, hconforms, htook.shows (hroom.mono hknown)⟩

theorem firstFault_of_readGraph_eq_error {error : TextError} (h : readGraph text = .error error) :
    ∃ before line after, linesOf text = before ++ line :: after ∧ FirstFault before line ∧
      error.line = before.length + 1 := by
  have htracks := tracks_readLines hroom subset_rfl
  rw [readGraph_eq] at h
  cases hlines : readLines (linesOf text) with
  | ok b =>
      rw [hlines] at h
      cases h
  | error fault =>
      rw [hlines] at h htracks
      cases h
      exact htracks

end

/-- The reader of graphs is exact on every text with room for what its lines declare, as there is
in every text shorter than the range of ids (`room_of_length_lt`). -/
theorem readGraph_exact {text : String}
    (hroom : Declaration.Room (declarable (linesOf text))) : ReadsExactly text := by
  constructor
  case succeeds =>
    constructor
    · intro h
      obtain ⟨g, hread⟩ := h
      obtain ⟨declarations, hconforms, -⟩ := shows_of_readGraph_eq_ok hroom hread
      exact ⟨declarations, hconforms⟩
    · intro h
      obtain ⟨declarations, hconforms⟩ := h
      cases hread : readGraph text with
      | ok g => exact ⟨g, rfl⟩
      | error error =>
          obtain ⟨before, line, after, hsplit, hfault, -⟩ :=
            firstFault_of_readGraph_eq_error hroom hread
          rw [hsplit] at hconforms
          exact absurd hconforms hfault.append
  case shows => exact fun g hread => shows_of_readGraph_eq_ok hroom hread
  case fails =>
    intro error hread
    obtain ⟨before, line, after, hsplit, hfault, hline⟩ :=
      firstFault_of_readGraph_eq_error hroom hread
    exact ⟨before, line, after, hsplit, hfault, error.fault.report, by
      rw [TextError.report, hline]⟩
  case ignores =>
    intro other hsame
    rw [mapError_fault_readGraph, mapError_fault_readGraph, hsame]

/-- A text of two declarations, with a comment, a sign and a leading zero. -/
theorem readGraph_exact_loop :
    ReadsExactly "# a loop\nnode 7 A,,B\n\nedge +7 07 r" ∧
      ∃ g, readGraph "# a loop\nnode 7 A,,B\n\nedge +7 07 r" = .ok g ∧
        g.Shows [.node ⟨7⟩ ["A", "B"], .edge ⟨7⟩ ⟨7⟩ "r"] := by
  have hconforms : Conforms (linesOf "# a loop\nnode 7 A,,B\n\nedge +7 07 r")
      [.node ⟨7⟩ ["A", "B"], .edge ⟨7⟩ ⟨7⟩ "r"] := by
    have hentries : entriesOf (linesOf "# a loop\nnode 7 A,,B\n\nedge +7 07 r") =
        [["node".toList, ['7'], "A,,B".toList],
          ["edge".toList, ['+', '7'], ['0', '7'], ['r']]] := by
      decide +kernel
    rw [Conforms, hentries]
    have hseven : Numeral ['7'] 7 := numeral_toDigits 7
    have hsigned : Numeral ['+', '7'] 7 := ⟨['7'], .inr rfl, by simp, by simp, rfl⟩
    have hpadded : Numeral ['0', '7'] 7 := ⟨['0', '7'], .inl rfl, by simp, by simp, rfl⟩
    have hfirst : Declaration.Admissible [] (.node ⟨7⟩ ["A", "B"]) :=
      ⟨by simp, fun _ hmem => by cases hmem⟩
    have hnode : Declaration.InOrder [.node ⟨7⟩ ["A", "B"]] :=
      Declaration.inOrder_append.mpr ⟨Declaration.inOrder_nil, hfirst⟩
    refine ⟨.cons (.node hseven) (.cons (.edge hsigned hpadded) .nil),
      Declaration.inOrder_append.mpr ⟨hnode, ?_⟩⟩
    exact ⟨⟨_, List.mem_singleton_self _⟩, ⟨_, List.mem_singleton_self _⟩,
      fun _ _ _ hmem => by simp at hmem⟩
  have hexact := readGraph_exact (room_of_length_lt
    (show "# a loop\nnode 7 A,,B\n\nedge +7 07 r".length < UInt32.size by decide))
  obtain ⟨g, hread⟩ := hexact.succeeds.mpr ⟨_, hconforms⟩
  obtain ⟨declarations, hothers, hshows⟩ := hexact.shows g hread
  obtain rfl := hothers.unique hconforms
  exact ⟨hexact, g, hread, hshows⟩

end Text

end Hetnet
