import Mathlib
import Hetnet.Proofs.Numberings

/-!
# Whole runs of a numbering

A numbering is two tables, and the type of a numbering promises that they agree. A program has no
such promise: it changes the tables one after the other, and numbers in words of 32 bits.
`Tables` is that program. It comes to the same, because the tables of a numbering, taken
for themselves, are what it has before and after every call (`Tables.run_intern`,
`Tables.run_insert`); so nothing that the promise gives is lost to it.

What a run leaves behind can be read off the list of its keys alone. A key that is not there yet
goes to the end of the table and any other key changes nothing, which is how a list loses its
repetitions: the table is the list of the keys with only the first of each kept, and the number
of a key is its place in that list. As long as there are fewer calls than there are words,
no number wraps around, and the two ways through the tables lead back to each other.
-/

namespace Hetnet

/-! ## Runs of calls -/

section

variable {σ τ α β γ : Type} (call : σ → α → β × σ)

/-- The answers to several calls, from left to right, and the state after them. -/
def callAll (s : σ) : List α → List β × σ
  | [] => ([], s)
  | a :: rest =>
      let (answer, s) := call s a
      let (answers, s) := callAll s rest
      (answer :: answers, s)

theorem callAll_cons (s : σ) (a : α) (rest : List α) :
    callAll call s (a :: rest) =
      ((call s a).1 :: (callAll call (call s a).2 rest).1, (callAll call (call s a).2 rest).2) :=
  rfl

theorem callAll_append (s : σ) (calls more : List α) :
    callAll call s (calls ++ more) =
      ((callAll call s calls).1 ++ (callAll call (callAll call s calls).2 more).1,
        (callAll call (callAll call s calls).2 more).2) := by
  induction calls generalizing s with
  | nil => rfl
  | cons a rest ih =>
      rw [List.cons_append, callAll_cons, ih]
      rfl

theorem length_callAll (s : σ) (calls : List α) :
    (callAll call s calls).1.length = calls.length := by
  induction calls generalizing s with
  | nil => rfl
  | cons a rest ih => exact congrArg Nat.succ (ih _)

/-- Every call of a run is answered in the state that the calls before it have left behind. -/
theorem getElem?_callAll (s : σ) (before : List α) (a : α) (after : List α) :
    (callAll call s (before ++ a :: after)).1[before.length]? =
      some (call (callAll call s before).2 a).1 := by
  rw [callAll_append, ← length_callAll call s before, List.getElem?_append_right le_rfl,
    Nat.sub_self]
  rfl

/-- A program whose single step answers as a call does, on its own form of the state, answers as
the calls do over a whole run. -/
theorem run_mapM_eq_callAll {step : α → StateM τ γ} (state : σ → τ) (answer : β → γ)
    (h : ∀ s a, (step a).run (state s) = (answer (call s a).1, state (call s a).2)) (s : σ)
    (calls : List α) :
    (calls.mapM step).run (state s) =
      ((callAll call s calls).1.map answer, state (callAll call s calls).2) := by
  induction calls generalizing s with
  | nil => rfl
  | cons a rest ih =>
      have hcons : ((a :: rest).mapM step).run (state s) =
          (((step a).run (state s)).1 :: ((rest.mapM step).run ((step a).run (state s)).2).1,
            ((rest.mapM step).run ((step a).run (state s)).2).2) := by
        rw [List.mapM_cons]
        rfl
      rw [hcons, h, ih]
      rfl

end

/-! ## Two tables changed in place -/

/-- The tables of a numbering by themselves. Numbers are words of 32 bits. -/
structure Tables (α : Type) [BEq α] [LawfulBEq α] [Hashable α] where
  keys : Array α := #[]
  numbers : Std.ExtHashMap α UInt32 := ∅

namespace Tables

variable {α : Type} [BEq α] [LawfulBEq α] [Hashable α]

/-- The tables of a numbering. -/
def ofNumbering (n : Numbering α) : Tables α := ⟨n.keys, n.positions.map fun _ i => .ofNat i⟩

/-- The number of a key. A new key is entered into the one table, then into the other. -/
def intern (key : α) : StateM (Tables α) UInt32 := do
  match (← get).numbers[key]? with
  | some number => return number
  | none =>
      let number := UInt32.ofNat (← get).keys.size
      modify fun t => { t with numbers := t.numbers.insert key number }
      modify fun t => { t with keys := t.keys.push key }
      return number

/-- The number of a new external id. One that is known is refused. -/
def insert (external : ExternalId) : ExceptT Error (StateM (Tables ExternalId)) NodeId := do
  let before ← get
  if before.numbers.contains external then
    throw (.duplicateNode external)
  else if before.keys.size < UInt32.size then
    modify fun t => { t with keys := t.keys.push external }
    modify fun t => { t with numbers := t.numbers.insert external (.ofNat before.keys.size) }
    return .ofIndex before.keys.size
  else
    throw (.invalidParameter "node_count" "more than u32::MAX nodes")

theorem getElem?_ofNumbering (n : Numbering α) (key : α) :
    (ofNumbering n).numbers[key]? = (n.position? key).map UInt32.ofNat :=
  Std.ExtHashMap.getElem?_map

theorem ofNumbering_empty : ofNumbering (∅ : Numbering α) = {} := by
  refine congrArg (Tables.mk _) (Std.ExtHashMap.ext_getElem? fun key => ?_)
  rw [Std.ExtHashMap.getElem?_empty]
  exact (getElem?_ofNumbering _ key).trans (by rw [Numbering.position?_empty]; rfl)

theorem ofNumbering_push (n : Numbering α) (key : α) (fresh : n.position? key = none) :
    ofNumbering (n.push key fresh) =
      ⟨n.keys.push key, (ofNumbering n).numbers.insert key (.ofNat n.size)⟩ := by
  refine congrArg (Tables.mk _) (Std.ExtHashMap.ext_getElem? fun other => ?_)
  refine (getElem?_ofNumbering _ other).trans ?_
  rw [Numbering.position?_push, Std.ExtHashMap.getElem?_insert, getElem?_ofNumbering]
  split <;> rfl

/-- Interning in place numbers as the numbering does. -/
theorem run_intern (n : Numbering α) (key : α) :
    (intern key).run (ofNumbering n) =
      (.ofNat (n.intern key).1, ofNumbering (n.intern key).2) := by
  show (match (ofNumbering n).numbers[key]? with
    | some number => pure number
    | none => _ : StateM (Tables α) UInt32).run (ofNumbering n) = _
  rw [getElem?_ofNumbering]
  cases hkey : n.position? key with
  | some i =>
      rw [Numbering.intern_of_eq_some hkey]
      rfl
  | none =>
      rw [Numbering.intern_of_eq_none hkey, ofNumbering_push]
      rfl

end Tables

namespace NodeTable

/-- The answer to an insertion and the table after it, which is the same table if the insertion
is refused. -/
def attempt (t : NodeTable) (external : ExternalId) : Except Error NodeId × NodeTable :=
  match t.insert external with
  | .ok (node, grown) => (.ok node, grown)
  | .error error => (.error error, t)

/-- The answers to several insertions, from left to right, and the table after them. -/
def attemptAll (t : NodeTable) (externals : List ExternalId) :
    List (Except Error NodeId) × NodeTable :=
  callAll attempt t externals

theorem attempt_of_eq_some {t : NodeTable} {external : ExternalId} {i : Nat}
    (h : t.externals.position? external = some i) :
    t.attempt external = (.error (.duplicateNode external), t) := by
  have hnode : t.node? external = some (.ofIndex i) := by
    rw [node?, h]
    rfl
  rw [attempt, insert_of_eq_some hnode]

theorem attempt_of_eq_none {t : NodeTable} {external : ExternalId}
    (h : t.externals.position? external = none) (hroom : t.size < UInt32.size) :
    t.attempt external = (.ok (.ofIndex t.size), ⟨t.externals.push external h⟩) := by
  rw [attempt, insert_of_eq_none h hroom]

theorem attempt_of_full {t : NodeTable} {external : ExternalId}
    (h : t.externals.position? external = none) (hfull : UInt32.size ≤ t.size) :
    t.attempt external =
      (.error (.invalidParameter "node_count" "more than u32::MAX nodes"), t) := by
  have hinsert : t.insert external =
      .error (.invalidParameter "node_count" "more than u32::MAX nodes") := by
    unfold insert
    split
    · next i hi =>
        rw [h] at hi
        cases hi
    · exact if_neg (Nat.not_lt.mpr hfull)
  rw [attempt, hinsert]

end NodeTable

namespace Tables

/-- Inserting in place answers as the node table does, and a refused insertion leaves both tables
as they were. -/
theorem run_insert (t : NodeTable) (external : ExternalId) :
    (insert external).run.run (ofNumbering t.externals) =
      ((t.attempt external).1, ofNumbering (t.attempt external).2.externals) := by
  have hcontains : (ofNumbering t.externals).numbers.contains external =
      (t.externals.position? external).isSome := by
    rw [Std.ExtHashMap.contains_eq_isSome_getElem?, getElem?_ofNumbering, Option.isSome_map]
  show (if (ofNumbering t.externals).numbers.contains external = true then throw _ else
    if t.size < UInt32.size then _ else throw _ :
      ExceptT Error (StateM (Tables ExternalId)) NodeId).run.run (ofNumbering t.externals) = _
  rw [hcontains]
  cases hkey : t.externals.position? external with
  | some i =>
      rw [NodeTable.attempt_of_eq_some hkey]
      rfl
  | none =>
      by_cases hroom : t.size < UInt32.size
      · rw [NodeTable.attempt_of_eq_none hkey hroom, ofNumbering_push,
          if_pos hroom]
        rfl
      · rw [NodeTable.attempt_of_full hkey (Nat.not_lt.mp hroom), if_neg hroom]
        rfl

end Tables

/-! ## Keys in the order in which they first came -/

theorem eraseDups_concat {α : Type} [BEq α] [LawfulBEq α] (keys : List α) (key : α) :
    (keys ++ [key]).eraseDups = if key ∈ keys then keys.eraseDups else keys.eraseDups ++ [key] := by
  rw [List.eraseDups_append]
  split
  · next h => simp [List.removeAll, h]
  · next h => simp [List.removeAll, List.eraseDups_cons, h]

namespace Numbering

variable {α : Type} [BEq α] [LawfulBEq α] [Hashable α]

/-- A numbering of keys in the order in which they first came. -/
def Lists (n : Numbering α) (keys : List α) : Prop := n.keys.toList = keys.eraseDups

variable {n : Numbering α} {keys : List α}

theorem lists_empty : (∅ : Numbering α).Lists [] := rfl

theorem position?_eq_some_iff {key : α} {i : Nat} (h : n.Lists keys) :
    n.position? key = some i ↔ keys.eraseDups[i]? = some key := by
  rw [← h, Array.getElem?_toList]
  exact n.agree key i

theorem Lists.position?_of_mem (h : n.Lists keys) {key : α} (hkey : key ∈ keys) :
    n.position? key = some (keys.eraseDups.idxOf key) :=
  (position?_eq_some_iff h).mpr (List.getElem?_idxOf (List.mem_eraseDups.mpr hkey))

theorem Lists.position?_of_not_mem (h : n.Lists keys) {key : α} (hkey : key ∉ keys) :
    n.position? key = none := by
  refine Option.eq_none_iff_forall_ne_some.mpr fun i hi => hkey ?_
  exact List.mem_eraseDups.mp (List.mem_of_getElem? ((position?_eq_some_iff h).mp hi))

theorem Lists.size_eq (h : n.Lists keys) : n.size = keys.eraseDups.length := by
  rw [← h, Array.length_toList, size]

/-- No more keys are numbered than there were calls. -/
theorem Lists.size_le (h : n.Lists keys) : n.size ≤ keys.length := by
  have hsub : keys.eraseDups ⊆ keys := fun key hkey => List.mem_eraseDups.mp hkey
  rw [h.size_eq]
  exact (List.subperm_of_subset (h ▸ n.nodup_keys) hsub).length_le

theorem Lists.concat_of_mem (h : n.Lists keys) {key : α} (hkey : key ∈ keys) :
    n.Lists (keys ++ [key]) := by
  rw [Lists, eraseDups_concat, if_pos hkey]
  exact h

theorem Lists.push (h : n.Lists keys) {key : α} (hkey : key ∉ keys)
    (fresh : n.position? key = none) : (n.push key fresh).Lists (keys ++ [key]) := by
  rw [Lists, eraseDups_concat, if_neg hkey, ← h]
  exact Array.toList_push

/-- One call more is one key more in the list. -/
theorem Lists.intern (h : n.Lists keys) (key : α) : (n.intern key).2.Lists (keys ++ [key]) := by
  by_cases hkey : key ∈ keys
  · rw [intern_of_eq_some (h.position?_of_mem hkey)]
    exact h.concat_of_mem hkey
  · have fresh := h.position?_of_not_mem hkey
    rw [intern_of_eq_none fresh]
    exact h.push hkey fresh

end Numbering

/-! ## Runs of a vocabulary -/

/-- A map that is made from entries in the order of their keys lists them as they were given. -/
theorem toList_ofList_of_increasing {α β : Type} [Ord α] [Std.TransOrd α] [Std.LawfulEqOrd α]
    {entries : List (α × β)} (h : entries.Pairwise fun a b => compare a.1 b.1 = .lt) :
    (Std.ExtTreeMap.ofList entries).toList = entries := by
  have : Std.Asymm fun a b : α × β => compare a.1 b.1 = .lt :=
    ⟨fun a b hlt hgt => by rw [Std.OrientedOrd.eq_swap, hlt] at hgt; cases hgt⟩
  have hdistinct : entries.Pairwise fun a b => ¬ compare a.1 b.1 = .eq :=
    h.imp fun hlt heq => by rw [hlt] at heq; cases heq
  have hget : ∀ {key : α} {value : β}, (key, value) ∈ entries →
      (Std.ExtTreeMap.ofList entries)[key]? = some value := fun hin =>
    Std.ExtTreeMap.getElem?_ofList_of_mem Std.ReflCmp.compare_self hdistinct hin
  refine List.Pairwise.eq_of_mem_iff Std.ExtTreeMap.ordered_keys_toList h fun entry => ?_
  rw [Std.ExtTreeMap.mem_toList_iff_getElem?_eq_some]
  constructor
  · intro hvalue
    have hin : entry.1 ∈ Std.ExtTreeMap.ofList entries :=
      Std.ExtTreeMap.mem_iff_isSome_getElem?.mpr (Option.isSome_of_eq_some hvalue)
    classical
    rw [Std.ExtTreeMap.mem_ofList, List.contains_iff_mem] at hin
    obtain ⟨other, hother, hkey⟩ := List.mem_map.mp hin
    rw [← hkey, hget hother, Option.some_inj] at hvalue
    rwa [← Prod.ext hkey hvalue]
  · exact hget

theorem mapM_eq_some_map {α β : Type} {f : α → Option β} {g : α → β} {list : List α}
    (h : ∀ a ∈ list, f a = some (g a)) : list.mapM f = some (list.map g) := by
  induction list with
  | nil => rfl
  | cons a rest ih =>
      obtain ⟨ha, hrest⟩ := List.forall_mem_cons.mp h
      rw [List.mapM_cons, ha, ih hrest]
      rfl

namespace Vocabulary

variable {kind : Kind} {v : Vocabulary kind} {names : List String}

/-- The names by the numbers of their ids. -/
def record (v : Vocabulary kind) : Std.ExtTreeMap UInt32 String :=
  .ofList (v.entries.map fun (id, name) => (id.raw, name))

/-- A vocabulary that shows the names of a run: the ids are the numbers in the order in which
the names first came. -/
structure Shows (v : Vocabulary kind) (names : List String) : Prop where
  size : v.size = names.eraseDups.length
  id? : ∀ name ∈ names, v.id? name = some (.ofIndex (names.eraseDups.idxOf name))
  id?_of_not_mem : ∀ name, name ∉ names → v.id? name = none
  name? : ∀ id, v.name? id = names.eraseDups[id.index]?
  agree : ∀ name id, v.id? name = some id ↔ v.name? id = some name
  entries : v.entries = names.eraseDups.zipIdx.map fun (name, i) => (.ofIndex i, name)
  record : v.record.toList = v.entries.map fun (id, name) => (id.raw, name)

theorem record_toList (hroom : v.size ≤ UInt32.size) :
    v.record.toList = v.entries.map fun (id, name) => (id.raw, name) := by
  refine toList_ofList_of_increasing (List.pairwise_iff_getElem.mpr fun i j hi hj hlt => ?_)
  have hj' : j < UInt32.size := by
    refine lt_of_lt_of_le ?_ hroom
    simpa [Vocabulary.entries, Numbering.entries, size, Numbering.size] using hj
  simp only [Vocabulary.entries, Numbering.entries, List.getElem_map, List.getElem_zipIdx,
    Nat.zero_add]
  show compare (UInt32.ofNat i) (UInt32.ofNat j) = .lt
  rw [Std.compare_eq_lt, UInt32.lt_iff_toNat_lt, UInt32.toNat_ofNat_of_lt' (hlt.trans hj'),
    UInt32.toNat_ofNat_of_lt' hj']
  exact hlt

theorem shows_of_lists (h : v.names.Lists names) (hlength : names.length < UInt32.size) :
    v.Shows names := by
  have hroom : v.size ≤ UInt32.size := h.size_le.trans hlength.le
  exact
    { size := h.size_eq
      id? := by
        intro name hname
        rw [Vocabulary.id?, h.position?_of_mem hname]
        rfl
      id?_of_not_mem := by
        intro name hname
        rw [Vocabulary.id?, h.position?_of_not_mem hname]
        rfl
      name? := by
        intro id
        rw [Vocabulary.name?, Numbering.key?, ← Array.getElem?_toList, h]
      agree := fun name id => (name?_eq_some_iff hroom).symm
      entries := by
        rw [Vocabulary.entries, Numbering.entries, List.map_map, h]
        rfl
      record := record_toList hroom }

theorem lists_internAll {seen : List String} (h : v.names.Lists seen) (names : List String) :
    (v.internAll names).2.names.Lists (seen ++ names) := by
  induction names generalizing v seen with
  | nil =>
      rw [List.append_nil]
      exact h
  | cons name rest ih =>
      have hrest := ih (v := (v.intern name).2) (h.intern name)
      rw [List.append_assoc] at hrest
      exact hrest

theorem internAll_eq_callAll (v : Vocabulary kind) (names : List String) :
    v.internAll names = callAll intern v names := by
  induction names generalizing v with
  | nil => rfl
  | cons name rest ih =>
      rw [callAll_cons, ← ih]
      rfl

/-- Interning several names in place answers as the vocabulary does. -/
theorem run_internAll (v : Vocabulary kind) (names : List String) :
    (names.mapM Tables.intern).run (Tables.ofNumbering v.names) =
      ((v.internAll names).1.map TypedId.raw, Tables.ofNumbering (v.internAll names).2.names) := by
  rw [internAll_eq_callAll]
  exact run_mapM_eq_callAll intern (fun v => Tables.ofNumbering v.names) TypedId.raw
    (fun v name => Tables.run_intern v.names name) v names

/-- The ids that are handed out are those that the names have afterwards. -/
theorem internAll_fst (names : List String) :
    ((∅ : Vocabulary kind).internAll names).1 =
      names.map fun name => .ofIndex (names.eraseDups.idxOf name) := by
  have hlists := lists_internAll (v := (∅ : Vocabulary kind)) Numbering.lists_empty names
  have hids := mapM_id?_internAll (∅ : Vocabulary kind) names
  have hnames : ∀ name ∈ names, ((∅ : Vocabulary kind).internAll names).2.id? name =
      some (.ofIndex (names.eraseDups.idxOf name)) := fun name hname => by
    rw [id?, hlists.position?_of_mem hname]
    rfl
  rw [mapM_eq_some_map hnames] at hids
  exact (Option.some.inj hids).symm

/-- A name keeps its id, and an id its name, whatever is interned later. -/
theorem internAll_keeps {names more : List String} (hlength : (names ++ more).length < UInt32.size)
    {name : String} {id : TypedId kind}
    (h : ((∅ : Vocabulary kind).internAll names).2.id? name = some id) :
    ((∅ : Vocabulary kind).internAll (names ++ more)).2.id? name = some id ∧
      ((∅ : Vocabulary kind).internAll (names ++ more)).2.name? id = some name := by
  have hlater : ((∅ : Vocabulary kind).internAll (names ++ more)).2.id? name = some id := by
    rw [internAll_eq_callAll, callAll_append, ← internAll_eq_callAll, ← internAll_eq_callAll]
    exact id?_internAll_of_eq_some h more
  have hlists := lists_internAll (v := (∅ : Vocabulary kind)) Numbering.lists_empty (names ++ more)
  exact ⟨hlater, ((shows_of_lists hlists hlength).agree name id).mp hlater⟩

end Vocabulary

/-! ## Runs of a node table -/

namespace NodeTable

variable {t : NodeTable} {externals : List ExternalId}

/-- A node table that shows the external ids of a run, and what it answers to one more. -/
structure Shows (t : NodeTable) (externals : List ExternalId) : Prop where
  size : t.size = externals.eraseDups.length
  external? : ∀ node, t.external? node = externals.eraseDups[node.index]?
  agree : ∀ external node, t.node? external = some node ↔ t.external? node = some external
  isSome_external?_iff : ∀ node, (t.external? node).isSome = true ↔ node.index < t.size
  refuses_iff : ∀ external,
    (t.attempt external).1 = .error (.duplicateNode external) ↔ external ∈ externals
  refused : ∀ external ∈ externals, (t.attempt external).2 = t
  numbered : ∀ external, external ∉ externals →
    ∃ node, (t.attempt external).1 = .ok node ∧ node.index = t.size

theorem shows_of_lists (h : t.externals.Lists externals)
    (hlength : externals.length < UInt32.size) : t.Shows externals := by
  have hroom : t.size < UInt32.size := h.size_le.trans_lt hlength
  have hrefused : ∀ external ∈ externals,
      t.attempt external = (.error (.duplicateNode external), t) := fun external hexternal =>
    attempt_of_eq_some (h.position?_of_mem hexternal)
  have hnumbered : ∀ external, external ∉ externals →
      (t.attempt external).1 = .ok (.ofIndex t.size) := fun external hexternal => by
    rw [attempt_of_eq_none (h.position?_of_not_mem hexternal) hroom]
  exact
    { size := h.size_eq
      external? := by
        intro node
        rw [NodeTable.external?, Numbering.key?, ← Array.getElem?_toList, h]
      agree := fun external node => node?_eq_some_iff hroom.le
      isSome_external?_iff := by
        intro node
        rw [NodeTable.external?, Numbering.key?, Option.isSome_iff_ne_none, Ne,
          Array.getElem?_eq_none_iff, Nat.not_le]
        rfl
      refuses_iff := by
        intro external
        refine ⟨fun hanswer => ?_, fun hexternal => by rw [hrefused external hexternal]⟩
        by_contra hexternal
        rw [hnumbered external hexternal] at hanswer
        cases hanswer
      refused := fun external hexternal => by rw [hrefused external hexternal]
      numbered := fun external hexternal =>
        ⟨_, hnumbered external hexternal, TypedId.index_ofIndex hroom⟩ }

/-- One call more is one external id more in the list, if there is room for it. -/
theorem lists_attempt (h : t.externals.Lists externals)
    (hlength : externals.length < UInt32.size) (external : ExternalId) :
    (t.attempt external).2.externals.Lists (externals ++ [external]) := by
  by_cases hexternal : external ∈ externals
  · rw [attempt_of_eq_some (h.position?_of_mem hexternal)]
    exact h.concat_of_mem hexternal
  · have fresh := h.position?_of_not_mem hexternal
    rw [attempt_of_eq_none fresh (h.size_le.trans_lt hlength)]
    exact h.push hexternal fresh

theorem lists_attemptAll {seen : List ExternalId} (h : t.externals.Lists seen)
    (hlength : (seen ++ externals).length ≤ UInt32.size) :
    (t.attemptAll externals).2.externals.Lists (seen ++ externals) := by
  induction externals generalizing t seen with
  | nil =>
      rw [List.append_nil]
      exact h
  | cons external rest ih =>
      have hseen : seen.length < UInt32.size := by
        rw [List.length_append, List.length_cons] at hlength
        omega
      have hsplit : (seen ++ [external]) ++ rest = seen ++ external :: rest := by
        rw [List.append_assoc, List.singleton_append]
      have hrest := ih (lists_attempt h hseen external) (hsplit ▸ hlength)
      rw [hsplit] at hrest
      exact hrest

/-- Inserting several external ids in place answers as the node table does. -/
theorem run_attemptAll (t : NodeTable) (externals : List ExternalId) :
    (externals.mapM fun external => (Tables.insert external).run).run
        (Tables.ofNumbering t.externals) =
      ((t.attemptAll externals).1, Tables.ofNumbering (t.attemptAll externals).2.externals) := by
  have hrun := run_mapM_eq_callAll attempt (fun t => Tables.ofNumbering t.externals) id
    Tables.run_insert t externals
  rw [List.map_id] at hrun
  exact hrun

end NodeTable

/-- Names and external ids are numbered in the order in which they first come, over all runs of
fewer calls than there are numbers, and the two tables lead back to each other after every call.
A name keeps its id and an id its name. An external id that comes again is refused, and then
nothing has changed. -/
theorem numbered_by_first_call (kind : Kind) :
    (∀ names : List String, names.length < UInt32.size →
      ((∅ : Vocabulary kind).internAll names).1 =
          names.map (fun name => .ofIndex (names.eraseDups.idxOf name)) ∧
        ((∅ : Vocabulary kind).internAll names).2.Shows names ∧
        (∀ more, (names ++ more).length < UInt32.size → ∀ name id,
          ((∅ : Vocabulary kind).internAll names).2.id? name = some id →
            ((∅ : Vocabulary kind).internAll (names ++ more)).2.id? name = some id ∧
              ((∅ : Vocabulary kind).internAll (names ++ more)).2.name? id = some name) ∧
        (names.mapM Tables.intern).run {} =
          (((∅ : Vocabulary kind).internAll names).1.map TypedId.raw,
            Tables.ofNumbering ((∅ : Vocabulary kind).internAll names).2.names)) ∧
    ∀ externals : List ExternalId, externals.length < UInt32.size →
      ((∅ : NodeTable).attemptAll externals).2.Shows externals ∧
        (∀ before external after, externals = before ++ external :: after →
          ((∅ : NodeTable).attemptAll externals).1[before.length]? =
              some (((∅ : NodeTable).attemptAll before).2.attempt external).1 ∧
            ((∅ : NodeTable).attemptAll before).2.Shows before) ∧
        (externals.mapM fun external => (Tables.insert external).run).run {} =
          (((∅ : NodeTable).attemptAll externals).1,
            Tables.ofNumbering ((∅ : NodeTable).attemptAll externals).2.externals) := by
  refine ⟨fun names hlength => ⟨Vocabulary.internAll_fst names, ?_, ?_, ?_⟩,
    fun externals hlength => ⟨?_, ?_, ?_⟩⟩
  · exact Vocabulary.shows_of_lists
      (Vocabulary.lists_internAll (v := (∅ : Vocabulary kind)) Numbering.lists_empty names) hlength
  · intro more hmore name id hid
    exact Vocabulary.internAll_keeps hmore hid
  · rw [← Tables.ofNumbering_empty]
    exact Vocabulary.run_internAll ∅ names
  · exact NodeTable.shows_of_lists
      (NodeTable.lists_attemptAll (t := ∅) Numbering.lists_empty hlength.le) hlength
  · rintro before external after rfl
    have hbefore : before.length < UInt32.size := by
      rw [List.length_append] at hlength
      omega
    refine ⟨getElem?_callAll NodeTable.attempt ∅ before external after, ?_⟩
    exact NodeTable.shows_of_lists
      (NodeTable.lists_attemptAll (t := ∅) Numbering.lists_empty hbefore.le) hbefore
  · rw [← Tables.ofNumbering_empty]
    exact NodeTable.run_attemptAll ∅ externals

/-- Three calls with two names, and three with two external ids. -/
theorem numbered_by_first_call_again :
    (∃ v, (∅ : Vocabulary .label).internAll ["A", "B", "A"] =
        ([.ofIndex 0, .ofIndex 1, .ofIndex 0], v) ∧
      v.Shows ["A", "B", "A"] ∧ v.entries = [(.ofIndex 0, "A"), (.ofIndex 1, "B")]) ∧
    ∃ answers t, (∅ : NodeTable).attemptAll [⟨100⟩, ⟨7⟩, ⟨100⟩] = (answers, t) ∧
      t.Shows [⟨100⟩, ⟨7⟩, ⟨100⟩] ∧ (∃ node, answers[1]? = some (.ok node) ∧ node.index = 1) ∧
        answers[2]? = some (.error (.duplicateNode ⟨100⟩)) := by
  obtain ⟨hnames, hexternals⟩ := numbered_by_first_call .label
  obtain ⟨hids, hnamed, -⟩ := hnames ["A", "B", "A"] (by decide)
  obtain ⟨htable, hcalls, -⟩ := hexternals [⟨100⟩, ⟨7⟩, ⟨100⟩] (by decide)
  refine ⟨⟨_, Prod.ext hids rfl, hnamed, hnamed.entries.trans (by decide +kernel)⟩,
    _, _, rfl, htable, ?_, ?_⟩
  · obtain ⟨hanswer, hbefore⟩ := hcalls [⟨100⟩] ⟨7⟩ [⟨100⟩] rfl
    obtain ⟨node, hnode, hindex⟩ := hbefore.numbered ⟨7⟩ (by decide)
    refine ⟨node, hanswer.trans (congrArg some hnode), hindex.trans ?_⟩
    exact hbefore.size.trans (by decide)
  · obtain ⟨hanswer, hbefore⟩ := hcalls [⟨100⟩, ⟨7⟩] ⟨100⟩ [] rfl
    exact hanswer.trans (congrArg some ((hbefore.refuses_iff ⟨100⟩).mpr (by decide)))

end Hetnet
