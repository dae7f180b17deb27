import Mathlib
import Hetnet.Proofs.ReadBack

/-!
# A key is the decimal forms of a sequence of ids

The parser tests the tokens of a text one by one, through the lenient reader of numbers, and
then counts them. `MetaPath.IsKey` says what comes of that without a reader: an odd number of
decimal forms of ids, joined by bars. A token is canonical exactly if it is a decimal form
(`MetaPath.isCanonical_iff`), hence the text that is written for some ids, and the text joined
from such tokens is the key of these ids.

From there on a key is no text any more. Taking its tokens two at a time gives a start label and
steps, and the key is the one that is written for them (`MetaPath.exists_steps_of_parse`).
What is read off it are the labels and edge types that were put in, hence a
key and its two lists of ids determine each other.
-/

namespace Hetnet

namespace MetaPath

/-! ## The grammar -/

/-- The texts that are keys: an odd number of decimal forms of ids, joined by bars. -/
def IsKey (key : String) : Prop :=
  ∃ tokens : List (List Char), tokens.length % 2 = 1 ∧
    (∀ token ∈ tokens, ∃ id < UInt32.size, Text.DecimalForm token id) ∧
      key.toList = [separator].intercalate tokens

theorem text_ofIndex {kind : Kind} {i : Nat} (h : i < UInt32.size) :
    (TypedId.ofIndex i : TypedId kind).text.toList = Nat.toDigits 10 i := by
  rw [TypedId.text_toList, TypedId.index_ofIndex h]

theorem exists_text_of_isCanonical {token : List Char} (h : isCanonical token = true)
    (kind : Kind) : ∃ id : TypedId kind, token = id.text.toList := by
  rw [isCanonical] at h
  split at h
  · next id hread =>
      refine ⟨.ofIndex id.index, ?_⟩
      rw [text_ofIndex id.index_lt, ← TypedId.text_toList, of_decide_eq_true h]
  · cases h

/-- A token is canonical if it is the decimal form of an id. -/
theorem isCanonical_iff {token : List Char} :
    isCanonical token = true ↔ ∃ id < UInt32.size, Text.DecimalForm token id := by
  constructor
  · intro h
    obtain ⟨id, rfl⟩ := exists_text_of_isCanonical h .label
    refine ⟨id.index, id.index_lt, ?_⟩
    rw [TypedId.text_toList]
    exact Text.decimalForm_toDigits id.index
  · intro h
    obtain ⟨i, hi, hform⟩ := h
    have htext : (TypedId.ofIndex i : LabelId).text.toList = token := by
      rw [text_ofIndex hi, hform.eq_toDigits]
    rw [← htext]
    exact isCanonical_text _

/-- Canonical tokens of an odd number are those of a start label and steps. -/
theorem exists_steps_of_tokens : ∀ tokens : List (List Char),
    (∀ token ∈ tokens, isCanonical token = true) → tokens.length % 2 = 1 →
      ∃ (start : LabelId) (steps : List (EdgeTypeId × LabelId)),
        tokens = (start.text :: stepTokens steps).map String.toList
  | [], _, hodd => by cases hodd
  | [token], hall, _ => by
      obtain ⟨start, rfl⟩ := exists_text_of_isCanonical (hall token List.mem_cons_self) .label
      exact ⟨start, [], rfl⟩
  | first :: second :: rest, hall, hodd => by
      obtain ⟨hfirst, htail⟩ := List.forall_mem_cons.mp hall
      obtain ⟨hsecond, hrest⟩ := List.forall_mem_cons.mp htail
      obtain ⟨start, rfl⟩ := exists_text_of_isCanonical hfirst .label
      obtain ⟨edgeType, rfl⟩ := exists_text_of_isCanonical hsecond .edgeType
      rw [List.length_cons, List.length_cons] at hodd
      obtain ⟨next, steps, rfl⟩ := exists_steps_of_tokens rest hrest (by omega)
      exact ⟨start, (edgeType, next) :: steps, rfl⟩

theorem toList_ofSteps (start : LabelId) (steps : List (EdgeTypeId × LabelId)) :
    (ofSteps start steps).key.toList =
      [separator].intercalate ((start.text :: stepTokens steps).map String.toList) := by
  rw [← tokens_ofSteps]
  exact (List.intercalate_splitOn separator).symm

theorem eq_ofSteps_of_tokens {key : String} {start : LabelId}
    {steps : List (EdgeTypeId × LabelId)}
    (h : key.toList = [separator].intercalate ((start.text :: stepTokens steps).map
      String.toList)) : (⟨key⟩ : MetaPath) = ofSteps start steps := by
  rw [← toList_ofSteps] at h
  exact congrArg MetaPath.mk (String.toList_inj.mp h)

/-- The parser takes what is written for a start label and steps, and nothing else. -/
theorem exists_steps_of_parse {key : String} {p : MetaPath} (h : parse key = .ok p) :
    p.key = key ∧ ∃ (start : LabelId) (steps : List (EdgeTypeId × LabelId)),
      p = ofSteps start steps := by
  rw [parse] at h
  split at h
  · next htokens =>
      cases h
      rw [Bool.and_eq_true, List.all_eq_true, decide_eq_true_iff] at htokens
      obtain ⟨start, steps, hsteps⟩ := exists_steps_of_tokens _ htokens.1 htokens.2
      refine ⟨rfl, start, steps, eq_ofSteps_of_tokens ?_⟩
      rw [← hsteps]
      exact (List.intercalate_splitOn separator).symm
  · cases h

theorem isKey_ofSteps (start : LabelId) (steps : List (EdgeTypeId × LabelId)) :
    IsKey (ofSteps start steps).key := by
  refine ⟨(ofSteps start steps).tokens, ?_, fun token htoken => ?_, ?_⟩
  · rw [length_tokens_ofSteps]
    omega
  · exact isCanonical_iff.mp (mem_tokens_ofSteps htoken)
  · rw [tokens_ofSteps, toList_ofSteps]

theorem IsKey.exists_steps {key : String} (h : IsKey key) :
    ∃ (start : LabelId) (steps : List (EdgeTypeId × LabelId)),
      (⟨key⟩ : MetaPath) = ofSteps start steps := by
  obtain ⟨tokens, hodd, hforms, hkey⟩ := h
  obtain ⟨start, steps, rfl⟩ := exists_steps_of_tokens tokens
    (fun token htoken => isCanonical_iff.mpr (hforms token htoken)) hodd
  exact ⟨start, steps, eq_ofSteps_of_tokens hkey⟩

/-- The parser takes the keys and refuses every other text, which it names. -/
theorem parse_isOk_iff {key : String} : (∃ p, parse key = .ok p) ↔ IsKey key := by
  constructor
  · intro h
    obtain ⟨p, hp⟩ := h
    obtain ⟨rfl, start, steps, rfl⟩ := exists_steps_of_parse hp
    exact isKey_ofSteps start steps
  · intro h
    obtain ⟨start, steps, hsteps⟩ := h.exists_steps
    refine ⟨ofSteps start steps, ?_⟩
    rw [← parse_ofSteps, ← hsteps]

/-! ## The parts of a key -/

/-- One label more than edge types is a start label and steps. -/
theorem exists_steps_of_length {labels : List LabelId} {edgeTypes : List EdgeTypeId}
    (h : labels.length = edgeTypes.length + 1) :
    ∃ (start : LabelId) (steps : List (EdgeTypeId × LabelId)),
      labels = start :: steps.map Prod.snd ∧ edgeTypes = steps.map Prod.fst := by
  cases labels with
  | nil => cases h
  | cons start rest =>
      have hlength : rest.length = edgeTypes.length := Nat.succ.inj h
      refine ⟨start, edgeTypes.zip rest, ?_, ?_⟩
      · rw [List.map_snd_zip hlength.le]
      · rw [List.map_fst_zip hlength.ge]

theorem length_of_ofParts {labels : List LabelId} {edgeTypes : List EdgeTypeId} {p : MetaPath}
    (h : ofParts labels edgeTypes = .ok p) : labels.length = edgeTypes.length + 1 := by
  rw [ofParts.eq_def] at h
  dsimp only at h
  split at h
  · cases h
  · next start rest =>
      split at h
      · next hlength => rw [List.length_cons, hlength]
      · cases h

theorem exists_steps_of_ofParts {labels : List LabelId} {edgeTypes : List EdgeTypeId}
    {p : MetaPath} (h : ofParts labels edgeTypes = .ok p) :
    ∃ (start : LabelId) (steps : List (EdgeTypeId × LabelId)),
      labels = start :: steps.map Prod.snd ∧ edgeTypes = steps.map Prod.fst ∧
        p = ofSteps start steps := by
  obtain ⟨start, steps, rfl, rfl⟩ := exists_steps_of_length (length_of_ofParts h)
  rw [ofParts_steps] at h
  exact ⟨start, steps, rfl, rfl, (Except.ok.inj h).symm⟩

/-- The parts of which a key is made are read off it. -/
theorem parts_of_ofParts {labels : List LabelId} {edgeTypes : List EdgeTypeId} {p : MetaPath}
    (h : ofParts labels edgeTypes = .ok p) : p.labels = labels ∧ p.edgeTypes = edgeTypes := by
  obtain ⟨start, steps, rfl, rfl, rfl⟩ := exists_steps_of_ofParts h
  exact ⟨labels_ofSteps start steps, edgeTypes_ofSteps start steps⟩

/-- A key is made again from the parts that are read off it. -/
theorem ofParts_of_parse {key : String} {p : MetaPath} (h : parse key = .ok p) :
    ofParts p.labels p.edgeTypes = .ok p := by
  obtain ⟨-, start, steps, rfl⟩ := exists_steps_of_parse h
  rw [labels_ofSteps, edgeTypes_ofSteps, ofParts_steps]

theorem parse_eq_error {key : String} {error : Error} (h : parse key = .error error) :
    error = .malformedMetaPath key := by
  rw [parse] at h
  split at h
  · cases h
  · cases h
    rfl

/-- Keys and sequences of ids are the same thing: the parser takes the keys and nothing else, any
sequence makes a key, and each of the two is read off the other. -/
theorem keys_determine_parts :
    (∀ key : String, ((∃ p, parse key = .ok p) ↔ IsKey key) ∧
      ∀ error, parse key = .error error → error = .malformedMetaPath key) ∧
    (∀ (labels : List LabelId) (edgeTypes : List EdgeTypeId),
      labels.length = edgeTypes.length + 1 → ∃ p, ofParts labels edgeTypes = .ok p ∧
        parse p.key = .ok p ∧ p.hops = edgeTypes.length ∧ p.labels = labels ∧
          p.edgeTypes = edgeTypes) ∧
    (∀ key p, parse key = .ok p → p.key = key ∧ ofParts p.labels p.edgeTypes = .ok p) ∧
    ∀ labels labels' edgeTypes edgeTypes' p, ofParts labels edgeTypes = .ok p →
      ofParts labels' edgeTypes' = .ok p → labels = labels' ∧ edgeTypes = edgeTypes' := by
  refine ⟨fun key => ⟨parse_isOk_iff, fun error => parse_eq_error⟩, ?_, ?_, ?_⟩
  · intro labels edgeTypes hlength
    obtain ⟨start, steps, rfl, rfl⟩ := exists_steps_of_length hlength
    refine ⟨ofSteps start steps, ofParts_steps start steps, parse_ofSteps start steps, ?_,
      labels_ofSteps start steps, edgeTypes_ofSteps start steps⟩
    rw [hops_ofSteps, List.length_map]
  · intro key p hparse
    exact ⟨(exists_steps_of_parse hparse).1, ofParts_of_parse hparse⟩
  · intro labels labels' edgeTypes edgeTypes' p hparts hparts'
    obtain ⟨rfl, rfl⟩ := parts_of_ofParts hparts
    exact parts_of_ofParts hparts'

/-- A key of one hop, and a text that is none because of a leading zero. -/
theorem keys_determine_parts_hop :
    (∃ p, ofParts [⟨0⟩, ⟨12⟩] [⟨7⟩] = .ok p ∧ parse p.key = .ok p ∧ p.hops = 1 ∧
        p.labels = [⟨0⟩, ⟨12⟩] ∧ p.edgeTypes = [⟨7⟩]) ∧
      parse "0|7|12" = .ok ⟨"0|7|12"⟩ ∧ IsKey "0|7|12" ∧
        ofParts (labels ⟨"0|7|12"⟩) (edgeTypes ⟨"0|7|12"⟩) = .ok ⟨"0|7|12"⟩ ∧
          ¬ IsKey "00|7|12" := by
  obtain ⟨hgrammar, hparts, hparse, -⟩ := keys_determine_parts
  have hread : parse "0|7|12" = .ok ⟨"0|7|12"⟩ := by decide +kernel
  refine ⟨hparts _ _ rfl, hread, (hgrammar _).1.mp ⟨_, hread⟩, (hparse _ _ hread).2, ?_⟩
  intro hkey
  obtain ⟨p, hp⟩ := (hgrammar _).1.mpr hkey
  have hrefused : parse "00|7|12" = .error (.malformedMetaPath "00|7|12") := by decide +kernel
  rw [hrefused] at hp
  cases hp

end MetaPath

end Hetnet
