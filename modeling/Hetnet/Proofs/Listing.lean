import Mathlib

/-!
# Counting the ways in which a list comes about

A list with repetitions says how many ways there are to make each of its members, once
every place in the list has been given the way that led to it. `Listing list rel` says
that this can be done: `rel i a` relates a way to what it makes, different places
have different ways, and no way is left out. Then the multiplicity of a member is the
number of its ways (`Listing.count_eq_encard`).

Listings are closed under what nested loops do to lists, so the ways of a loop nest are
found by following its shape.
-/

namespace Hetnet

variable {α β ι κ τ : Type}

/-- The places of a list are the related pairs, each once. -/
def Listing (list : List α) (rel : ι → α → Prop) : Prop :=
  ∃ tagged : List (ι × α), tagged.map Prod.snd = list ∧ (tagged.map Prod.fst).Nodup ∧
    ∀ i a, (i, a) ∈ tagged ↔ rel i a

namespace Listing

theorem congr {list : List α} {rel rel' : ι → α → Prop} (h : Listing list rel)
    (hrel : ∀ i a, rel i a ↔ rel' i a) : Listing list rel' := by
  obtain ⟨tagged, hlist, hnodup, hmem⟩ := h
  exact ⟨tagged, hlist, hnodup, fun i a => (hmem i a).trans (hrel i a)⟩

/-- Every list lists its own positions. -/
theorem positions (list : List α) : Listing list fun (i : Nat) a => list[i]? = some a := by
  refine ⟨list.zipIdx.map Prod.swap, ?_, ?_, fun i a => ?_⟩
  · rw [List.map_map]
    exact List.zipIdx_map_fst 0 list
  · rw [List.map_map]
    show (list.zipIdx.map Prod.snd).Nodup
    rw [List.zipIdx_map_snd]
    exact List.nodup_range'
  · show (i, a) ∈ list.zipIdx.map Prod.swap ↔ list[i]? = some a
    rw [← List.mk_mem_zipIdx_iff_getElem?]
    simp

/-- The members of a list without repetitions stand for themselves. -/
theorem self {list : List α} (h : list.Nodup) : Listing list fun b a => b = a ∧ a ∈ list := by
  refine ⟨list.map fun a => (a, a), ?_, ?_, fun b a => ?_⟩
  · rw [List.map_map]
    exact List.map_id list
  · rw [List.map_map]
    exact (List.map_id list).symm ▸ h
  · rw [List.mem_map]
    constructor
    · intro hin
      obtain ⟨c, hc, heq⟩ := hin
      cases heq
      exact ⟨rfl, hc⟩
    · intro hin
      obtain ⟨rfl, ha⟩ := hin
      exact ⟨b, ha, rfl⟩

/-- Ways may be told by anything that tells them apart. -/
theorem reindex {list : List α} {rel : ι → α → Prop} (h : Listing list rel) (f : ι → α → κ)
    (hinj : ∀ i a j b, rel i a → rel j b → f i a = f j b → i = j) :
    Listing list fun k a => ∃ i, rel i a ∧ f i a = k := by
  obtain ⟨tagged, rfl, hnodup, hmem⟩ := h
  refine ⟨tagged.map fun p => (f p.1 p.2, p.2), ?_, ?_, fun k a => ?_⟩
  · rw [List.map_map]
    rfl
  · rw [List.map_map]
    refine List.pairwise_map.mpr ((List.pairwise_map.mp hnodup).imp_of_mem ?_)
    intro p q hp hq hne heq
    exact hne (hinj p.1 p.2 q.1 q.2 ((hmem _ _).mp hp) ((hmem _ _).mp hq) heq)
  · simp only [← hmem, List.mem_map, Prod.mk.injEq, Prod.exists]
    constructor
    · intro hin
      obtain ⟨i, b, hi, rfl, rfl⟩ := hin
      exact ⟨i, hi, rfl⟩
    · intro hin
      obtain ⟨i, hi, rfl⟩ := hin
      exact ⟨i, a, hi, rfl, rfl⟩

theorem nil {rel : ι → α → Prop} (h : ∀ i a, ¬ rel i a) : Listing [] rel :=
  ⟨[], rfl, List.nodup_nil, fun i a => by simpa using h i a⟩

theorem singleton (i : ι) (a : α) : Listing [a] fun j b => j = i ∧ b = a :=
  ⟨[(i, a)], rfl, List.nodup_singleton i, fun j b => by simp⟩

/-- A new first member is made in a new way. -/
theorem cons {list : List α} {rel : ι → α → Prop} (h : Listing list rel) {i : ι} (a : α)
    (hfresh : ∀ b, ¬ rel i b) :
    Listing (a :: list) fun j b => (j = i ∧ b = a) ∨ rel j b := by
  obtain ⟨tagged, rfl, hnodup, hmem⟩ := h
  refine ⟨(i, a) :: tagged, rfl, List.nodup_cons.mpr ⟨fun hi => ?_, hnodup⟩, fun j b => ?_⟩
  · obtain ⟨⟨j, b⟩, hb, rfl⟩ := List.mem_map.mp hi
    exact hfresh b ((hmem _ b).mp hb)
  · rw [List.mem_cons, hmem, Prod.mk.injEq]

theorem map {list : List α} {rel : ι → α → Prop} (h : Listing list rel) (f : α → β) :
    Listing (list.map f) fun i b => ∃ a, rel i a ∧ b = f a := by
  obtain ⟨tagged, rfl, hnodup, hmem⟩ := h
  refine ⟨tagged.map fun p => (p.1, f p.2), ?_, ?_, fun i b => ?_⟩
  · rw [List.map_map, List.map_map]
    rfl
  · rw [List.map_map]
    exact hnodup
  · simp only [← hmem, List.mem_map, Prod.mk.injEq, Prod.exists]
    constructor
    · intro hin
      obtain ⟨j, a, ha, rfl, rfl⟩ := hin
      exact ⟨a, ha, rfl⟩
    · intro hin
      obtain ⟨a, ha, rfl⟩ := hin
      exact ⟨i, a, ha, rfl, rfl⟩

theorem filter {list : List α} {rel : ι → α → Prop} (h : Listing list rel) (p : α → Bool) :
    Listing (list.filter p) fun i a => rel i a ∧ p a = true := by
  obtain ⟨tagged, rfl, hnodup, hmem⟩ := h
  refine ⟨tagged.filter fun q => p q.2, ?_, ?_, fun i a => ?_⟩
  · rw [List.filter_map]
    rfl
  · exact hnodup.sublist (List.filter_sublist.map _)
  · rw [List.mem_filter, hmem]

/-- An inner loop: the ways are those of the outer member and of the inner one, put
together in a way that keeps both. -/
theorem flatMap {list : List α} {rel : ι → α → Prop} (h : Listing list rel) {f : α → List β}
    {inner : α → κ → β → Prop} (hf : ∀ i a, rel i a → Listing (f a) (inner a))
    (pair : ι → κ → τ) (hpair : ∀ i j k l, pair i k = pair j l → i = j ∧ k = l) :
    Listing (list.flatMap f) fun t b => ∃ i a k, rel i a ∧ inner a k b ∧ t = pair i k := by
  obtain ⟨tagged, rfl, hnodup, hmem⟩ := h
  have htags : ∀ p : ι × α, ∃ tags : List (κ × β), p ∈ tagged →
      tags.map Prod.snd = f p.2 ∧ (tags.map Prod.fst).Nodup ∧
        ∀ k b, (k, b) ∈ tags ↔ inner p.2 k b := by
    intro p
    by_cases hp : p ∈ tagged
    · obtain ⟨tags, htags⟩ := hf p.1 p.2 ((hmem p.1 p.2).mp hp)
      exact ⟨tags, fun _ => htags⟩
    · exact ⟨[], fun hin => absurd hin hp⟩
  choose tags htags using htags
  refine ⟨tagged.flatMap fun p => (tags p).map fun q => (pair p.1 q.1, q.2), ?_, ?_,
    fun t b => ?_⟩
  · rw [List.map_flatMap, List.flatMap_map]
    refine List.flatMap_congr fun p hp => ?_
    rw [List.map_map, ← (htags p hp).1]
    rfl
  · rw [List.map_flatMap, List.nodup_flatMap]
    refine ⟨fun p hp => ?_, ?_⟩
    · rw [List.map_map]
      have hcompose : (Prod.fst ∘ fun q : κ × β => (pair p.1 q.1, q.2)) =
          pair p.1 ∘ Prod.fst := rfl
      rw [hcompose, ← List.map_map]
      exact (htags p hp).2.1.map fun k l hkl => (hpair _ _ _ _ hkl).2
    · refine (List.pairwise_map.mp hnodup).imp fun {p q} hpq t ht hu => hpq ?_
      simp only [List.map_map, List.mem_map, Function.comp_apply] at ht hu
      obtain ⟨k, -, rfl⟩ := ht
      obtain ⟨l, -, hl⟩ := hu
      exact ((hpair _ _ _ _ hl).1).symm
  · simp only [List.mem_flatMap, List.mem_map, Prod.mk.injEq]
    constructor
    · intro hin
      obtain ⟨⟨i, a⟩, hp, ⟨k, c⟩, hq, rfl, rfl⟩ := hin
      exact ⟨i, a, k, (hmem i a).mp hp, ((htags (i, a) hp).2.2 k c).mp hq, rfl⟩
    · intro hin
      obtain ⟨i, a, k, hrel, hinner, rfl⟩ := hin
      have hp := (hmem i a).mpr hrel
      exact ⟨(i, a), hp, (k, b), ((htags (i, a) hp).2.2 k b).mpr hinner, rfl, rfl⟩

/-- A loop over a list: a way begins with the position of the member that was taken. -/
theorem flatMap_positions {list : List α} {f : α → List β} {inner : α → List Nat → β → Prop}
    (hf : ∀ a, Listing (f a) (inner a)) :
    Listing (list.flatMap f) fun places b =>
      ∃ i a rest, list[i]? = some a ∧ inner a rest b ∧ places = i :: rest :=
  (positions list).flatMap (fun _ a _ => hf a) List.cons fun _ _ _ _ h => List.cons_eq_cons.mp h

theorem mem_iff {list : List α} {rel : ι → α → Prop} (h : Listing list rel) {a : α} :
    a ∈ list ↔ ∃ i, rel i a := by
  obtain ⟨tagged, rfl, -, hmem⟩ := h
  simp only [← hmem, List.mem_map, Prod.exists, exists_eq_right]

/-! ## Counting -/

theorem encard_mem {list : List ι} (h : list.Nodup) : {i | i ∈ list}.encard = list.length := by
  classical
  have hset : {i | i ∈ list} = (list.toFinset : Set ι) := by
    ext i
    simp
  rw [hset, Set.encard_coe_eq_coe_finsetCard, List.toFinset_card_of_nodup h]

/-- There are as many places as ways. -/
theorem length_eq_encard {list : List α} {rel : ι → α → Prop} (h : Listing list rel) :
    {i | ∃ a, rel i a}.encard = list.length := by
  obtain ⟨tagged, rfl, hnodup, hmem⟩ := h
  have hset : {i | ∃ a, rel i a} = {i | i ∈ tagged.map Prod.fst} := by
    ext i
    simp [← hmem]
  rw [hset, encard_mem hnodup, List.length_map, List.length_map]

/-- A member occurs as often as there are ways to make it. -/
theorem count_eq_encard [BEq α] [LawfulBEq α] {list : List α} {rel : ι → α → Prop}
    (h : Listing list rel) (a : α) : {i | rel i a}.encard = list.count a := by
  have hset : {i | rel i a} = {i | ∃ b, rel i b ∧ (b == a) = true} := by
    ext i
    simp
  rw [hset, (h.filter (· == a)).length_eq_encard, List.count_eq_length_filter]

end Listing

end Hetnet
