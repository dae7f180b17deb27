import Mathlib
import Hetnet.Trace

/-!
# What a key shows

The tokens of a key are joined by bars, and no decimal form contains one, so splitting
a written key gives back the tokens that went into it. All that a reader of the
key recovers rests on this; the number of hops is the first thing.

Digits and bars are single bytes, so keys are in the order of their bytes when they are in
that of their characters.
-/

namespace Hetnet

theorem TypedId.text_toList {kind : Kind} (id : TypedId kind) :
    id.text.toList = Nat.toDigits 10 id.index := by
  show (Nat.repr id.index).toList = _
  simp [Nat.repr]

namespace MetaPath

theorem isDigit_of_mem_text {kind : Kind} {id : TypedId kind} {c : Char}
    (h : c ∈ id.text.toList) : c.isDigit = true := by
  rw [TypedId.text_toList] at h
  exact Nat.isDigit_of_mem_toDigits (by decide) (by decide) h

theorem separator_not_mem_text {kind : Kind} (id : TypedId kind) :
    separator ∉ id.text.toList := fun h =>
  absurd (isDigit_of_mem_text h) (by decide)

/-- The tokens that the steps of a path contribute to its key. -/
def stepTokens (steps : List (EdgeTypeId × LabelId)) : List String :=
  steps.flatMap fun (edgeType, label) => [edgeType.text, label.text]

theorem length_stepTokens (steps : List (EdgeTypeId × LabelId)) :
    (stepTokens steps).length = 2 * steps.length := by
  induction steps with
  | nil => rfl
  | cons step rest ih =>
      rw [stepTokens, List.flatMap_cons, List.length_append]
      show 2 + (stepTokens rest).length = 2 * (rest.length + 1)
      omega

/-- Splitting a written key gives back its tokens. -/
theorem tokens_ofSteps (label : LabelId) (steps : List (EdgeTypeId × LabelId)) :
    (ofSteps label steps).tokens = (label.text :: stepTokens steps).map String.toList := by
  rw [tokens, tokensOf, ofSteps, String.toList_intercalate]
  refine List.splitOn_intercalate separator (fun token htoken => ?_) (by simp)
  obtain ⟨text, htext, rfl⟩ := List.mem_map.mp htoken
  rcases List.mem_cons.mp htext with rfl | hstep
  · exact separator_not_mem_text label
  · obtain ⟨step, -, hmem⟩ := List.mem_flatMap.mp hstep
    rcases List.mem_pair.mp hmem with rfl | rfl
    · exact separator_not_mem_text step.1
    · exact separator_not_mem_text step.2

theorem hops_ofSteps (label : LabelId) (steps : List (EdgeTypeId × LabelId)) :
    (ofSteps label steps).hops = steps.length := by
  rw [hops, tokens_ofSteps, List.length_map, List.length_cons, length_stepTokens]
  omega

/-! ## Keys in the order of their bytes

A key is written in digits and bars, each of which is one byte. -/

/-- The bytes of the key. -/
def bytes (p : MetaPath) : List UInt8 := p.key.toUTF8.data.toList

/-- A key of characters that are one byte each. -/
def IsPlain (p : MetaPath) : Prop := ∀ c ∈ p.key.toList, c.toNat < 128

theorem mem_intercalate {c : Char} {separator : String} {texts : List String}
    (h : c ∈ (separator.intercalate texts).toList) :
    c ∈ separator.toList ∨ ∃ text ∈ texts, c ∈ text.toList := by
  induction texts with
  | nil => simp at h
  | cons text rest ih =>
      cases rest with
      | nil =>
          rw [String.intercalate_singleton] at h
          exact Or.inr ⟨text, List.mem_cons_self, h⟩
      | cons next rest =>
          rw [String.intercalate_cons_cons, String.toList_append, String.toList_append,
            List.mem_append, List.mem_append] at h
          rcases h with (htext | hsep) | hrest
          · exact Or.inr ⟨text, List.mem_cons_self, htext⟩
          · exact Or.inl hsep
          · refine (ih hrest).imp_right fun hin => ?_
            obtain ⟨other, hother, hc⟩ := hin
            exact ⟨other, List.mem_cons_of_mem _ hother, hc⟩

/-- A key has no characters but bars and digits. -/
theorem mem_key_ofSteps {label : LabelId} {steps : List (EdgeTypeId × LabelId)} {c : Char}
    (h : c ∈ (ofSteps label steps).key.toList) : c = separator ∨ c.isDigit = true := by
  rcases mem_intercalate h with hsep | ⟨text, htext, hc⟩
  · exact Or.inl (List.mem_singleton.mp (show c ∈ [separator] from hsep))
  · rcases List.mem_cons.mp htext with rfl | hstep
    · exact Or.inr (isDigit_of_mem_text hc)
    · obtain ⟨step, -, hmem⟩ := List.mem_flatMap.mp hstep
      rcases List.mem_pair.mp hmem with rfl | rfl
      · exact Or.inr (isDigit_of_mem_text hc)
      · exact Or.inr (isDigit_of_mem_text hc)

theorem isPlain_ofSteps (label : LabelId) (steps : List (EdgeTypeId × LabelId)) :
    (ofSteps label steps).IsPlain := by
  intro c hc
  rcases mem_key_ofSteps hc with rfl | hdigit
  · decide
  · rw [Char.isDigit, Bool.and_eq_true, decide_eq_true_iff, decide_eq_true_iff] at hdigit
    have hle : c.toNat ≤ 57 := hdigit.2
    omega

theorem bytes_eq_map {p : MetaPath} (h : p.IsPlain) :
    p.bytes = p.key.toList.map fun c => c.val.toUInt8 := by
  have hencode : p.bytes = p.key.toList.flatMap String.utf8EncodeChar := by
    rw [bytes, String.toUTF8, ← String.utf8Encode_toList, List.utf8Encode,
      List.data_toByteArray]
  rw [hencode, ← List.flatMap_singleton' (p.key.toList.map _), List.flatMap_map]
  refine List.flatMap_congr fun c hc => String.utf8EncodeChar_eq_singleton ?_
  exact if_pos (Nat.le_of_lt_succ (h c hc))

theorem map_toUInt8_lt {cs ds : List Char} (hcs : ∀ c ∈ cs, c.toNat < 128)
    (hds : ∀ d ∈ ds, d.toNat < 128) (h : cs < ds) :
    (cs.map fun c => c.val.toUInt8) < ds.map fun d => d.val.toUInt8 := by
  induction cs generalizing ds with
  | nil =>
      cases ds with
      | nil => exact absurd h (List.lt_irrefl [])
      | cons d ds => exact List.nil_lt_cons _ _
  | cons c cs ih =>
      cases ds with
      | nil => exact absurd h (List.not_lt_nil _)
      | cons d ds =>
          obtain ⟨hc, hcrest⟩ := List.forall_mem_cons.mp hcs
          obtain ⟨hd, hdrest⟩ := List.forall_mem_cons.mp hds
          rw [List.map_cons, List.map_cons, List.cons_lt_cons_iff]
          rcases List.cons_lt_cons_iff.mp h with hfirst | ⟨rfl, hrest⟩
          · left
            have hlt : c.toNat < d.toNat := hfirst
            show c.toNat % 256 < d.toNat % 256
            omega
          · exact Or.inr ⟨rfl, ih hcrest hdrest hrest⟩

theorem bytes_lt_of_compare {p q : MetaPath} (hp : p.IsPlain) (hq : q.IsPlain)
    (h : compare p q = .lt) : p.bytes < q.bytes := by
  have hkeys : compareOfLessAndEq p.key q.key = .lt := h
  have hlt : p.key < q.key := compareOfLessAndEq_eq_lt.mp hkeys
  rw [bytes_eq_map hp, bytes_eq_map hq]
  exact map_toUInt8_lt hp hq hlt

/-- The labels and edge types of a start and steps make up a key. -/
theorem ofParts_steps (start : LabelId) (steps : List (EdgeTypeId × LabelId)) :
    ofParts (start :: steps.map Prod.snd) (steps.map Prod.fst) = .ok (ofSteps start steps) := by
  have hzip : (steps.map Prod.fst).zip (steps.map Prod.snd) = steps :=
    (List.zip_of_prod rfl rfl).symm
  rw [ofParts, if_pos (by rw [List.length_map, List.length_map]), hzip]

end MetaPath

namespace Trace

theorem length_of_mem_choices {steps : List (EdgeTypeId × List LabelId)}
    {chosen : List (EdgeTypeId × LabelId)} (h : chosen ∈ choices steps) :
    chosen.length = steps.length := by
  induction steps generalizing chosen with
  | nil =>
      rw [List.mem_singleton.mp h]
      rfl
  | cons step rest ih =>
      obtain ⟨edgeType, labels⟩ := step
      obtain ⟨label, -, hchosen⟩ := List.mem_flatMap.mp h
      obtain ⟨tail, htail, rfl⟩ := List.mem_map.mp hchosen
      rw [List.length_cons, List.length_cons, ih htail]

/-- Every path that a trace stands for has as many hops as the trace. -/
theorem hops_of_mem_expand {t : Trace} {K : MetaPath} (h : K ∈ t.expand) : K.hops = t.hops := by
  obtain ⟨label, -, hK⟩ := List.mem_flatMap.mp h
  obtain ⟨chosen, hchosen, rfl⟩ := List.mem_map.mp hK
  rw [MetaPath.hops_ofSteps, length_of_mem_choices hchosen, List.length_reverse]
  rfl

/-- A trace stands for one path for each choice of a label at every node. -/
theorem length_expand (t : Trace) :
    t.expand.length = t.start.length * (t.steps.map fun step => step.2.length).prod := by
  have hchoices : ∀ steps : List (EdgeTypeId × List LabelId),
      (choices steps).length = (steps.map fun step => step.2.length).prod := by
    intro steps
    induction steps with
    | nil => rfl
    | cons step rest ih =>
        rw [choices, List.length_flatMap, List.map_cons, List.prod_cons, ← ih]
        simp
  rw [expand, List.length_flatMap]
  simp only [List.length_map, hchoices, List.map_reverse, List.prod_reverse, List.map_const',
    List.sum_replicate, smul_eq_mul]

/-- Combinations are counted like the paths, but modulo the size of a word. -/
theorem combinations_eq (t : Trace) : t.combinations = .ofNat t.expand.length := by
  rw [length_expand]
  obtain ⟨start, steps⟩ := t
  show steps.foldr (fun step count => count * UInt64.ofNat step.2.length)
    (UInt64.ofNat start.length) = _
  induction steps with
  | nil => simp
  | cons step rest ih =>
      rw [List.foldr_cons, ih, List.map_cons, List.prod_cons, ← UInt64.ofNat_mul, Nat.mul_assoc,
        Nat.mul_comm _ step.2.length]

theorem isPlain_of_mem_expand {t : Trace} {K : MetaPath} (h : K ∈ t.expand) : K.IsPlain := by
  obtain ⟨label, -, hK⟩ := List.mem_flatMap.mp h
  obtain ⟨chosen, -, rfl⟩ := List.mem_map.mp hK
  exact MetaPath.isPlain_ofSteps label chosen

end Trace

end Hetnet
