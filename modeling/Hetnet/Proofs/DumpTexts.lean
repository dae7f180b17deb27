import Mathlib
import Hetnet.Dump
import Hetnet.Proofs.KeyOrigins
import Hetnet.Proofs.Lines

/-!
# Dumps read back

A dump is keys and line feeds and nothing else: nothing is quoted, and no length is written
before a key. Where a key ends is known all the same, because a key is made of digits and bars
(`MetaPath.mem_key_ofSteps`). Cut at its line feeds, the text is then the list of the keys that
were written, with the empty piece after the last of them, which is no line (`Text.linesOf_join`).
Nor does a key end in a carriage return, which a reader of lines would take for a part of
the line's end.

From there the parser does the rest. It takes every key of a meta-path that was made, so the
set is built again from its members; and a text that gives back the set is not the text of
another one. What was restored from storage need not be a key, and then two sets can have the
same text (`PairDump.lines_restored`).
-/

namespace Hetnet

namespace Text

/-! ## Lines without their ends -/

/-- A line without the carriage return at its end. -/
def withoutReturn (line : List Char) : List Char :=
  if line.getLast? = some '\r' then line.dropLast else line

/-- The lines of a text without what ends them: a line feed, together with a carriage return right
before it. What follows the last line feed is a line too, unless it is empty. -/
def bareLines (text : String) : List String :=
  ((linesOf text).dropLast.map withoutReturn ++
    (linesOf text).getLast?.toList.filter (· ≠ [])).map String.ofList

/-- Lines that are joined with a line feed after each are cut apart again. -/
theorem linesOf_join {lines : List String} (h : ∀ line ∈ lines, '\n' ∉ line.toList) :
    linesOf (String.join (lines.map (· ++ "\n"))) = lines.map String.toList ++ [[]] := by
  induction lines with
  | nil => rfl
  | cons line rest ih =>
      obtain ⟨hline, hrest⟩ := List.forall_mem_cons.mp h
      have htext : (String.join ((line :: rest).map (· ++ "\n"))).toList =
          line.toList ++ '\n' :: (String.join (rest.map (· ++ "\n"))).toList := by
        rw [List.map_cons, String.join_cons, String.toList_append, String.toList_append,
          List.append_assoc]
        rfl
      have hsingle : line.toList.splitOnP (· == '\n') = [line.toList] :=
        List.splitOnP_eq_singleton fun c hc => by
          rw [beq_eq_false_iff_ne]
          rintro rfl
          exact hline hc
      have hcut := List.splitOnP_append_cons (p := (· == '\n')) line.toList
        (String.join (rest.map (· ++ "\n"))).toList (beq_self_eq_true '\n')
      rw [hsingle] at hcut
      rw [linesOf, htext, List.splitOn]
      exact hcut.trans (congrArg (line.toList :: ·) (ih hrest))

theorem withoutReturn_of_not_mem {line : List Char} (h : '\r' ∉ line) : withoutReturn line = line :=
  if_neg fun hlast => h (List.mem_of_getLast? hlast)

/-- Lines in which nothing ends a line are read as they were written. -/
theorem bareLines_join {lines : List String} (hfeed : ∀ line ∈ lines, '\n' ∉ line.toList)
    (hreturn : ∀ line ∈ lines, '\r' ∉ line.toList) :
    bareLines (String.join (lines.map (· ++ "\n"))) = lines := by
  have hlines : ∀ line ∈ lines, ((String.ofList ∘ withoutReturn) ∘ String.toList) line = line := by
    intro line hline
    rw [Function.comp_apply, Function.comp_apply, withoutReturn_of_not_mem (hreturn line hline),
      String.ofList_toList]
  rw [bareLines, linesOf_join hfeed, List.dropLast_concat, List.getLast?_concat, List.map_append,
    List.map_map, List.map_map, List.map_congr_left hlines, List.map_id']
  exact List.append_nil _

end Text

/-! ## Keys -/

namespace MetaPath

variable {p : MetaPath}

theorem WellFormed.isPlain (h : p.WellFormed) : p.IsPlain := by
  obtain ⟨start, steps, rfl⟩ := h.exists_steps
  exact isPlain_ofSteps start steps

/-- A character that is neither a digit nor a bar is in no key. -/
theorem WellFormed.not_mem_key (h : p.WellFormed) {c : Char} (hdigit : c.isDigit = false)
    (hseparator : c ≠ separator) : c ∉ p.key.toList := by
  obtain ⟨start, steps, rfl⟩ := h.exists_steps
  intro hc
  rcases mem_key_ofSteps hc with heq | htrue
  · exact hseparator heq
  · rw [hdigit] at htrue
    cases htrue

end MetaPath

namespace MetaPathSet

theorem foldlM_parse {list : List MetaPath} (h : ∀ p ∈ list, MetaPath.parse p.key = .ok p)
    (known : MetaPathSet) :
    (list.map (·.key)).foldlM (fun paths key => return paths.insert (← MetaPath.parse key)) known =
      (.ok (known.insertMany list) : Except Error MetaPathSet) := by
  induction list generalizing known with
  | nil => rw [Std.ExtTreeSet.insertMany_nil]; rfl
  | cons p rest ih =>
      obtain ⟨hp, hrest⟩ := List.forall_mem_cons.mp h
      rw [List.map_cons, List.foldlM_cons, hp, Std.ExtTreeSet.insertMany_cons]
      exact ih hrest (known.insert p)

/-- The keys of some meta-paths, parsed. -/
theorem parseAll_map_key {list : List MetaPath} (h : ∀ p ∈ list, MetaPath.parse p.key = .ok p) :
    parseAll (list.map (·.key)) = .ok (.ofList list) := by
  rw [parseAll, foldlM_parse h, Std.ExtTreeSet.ofList_eq_insertMany_empty]

/-- The keys of a set, parsed, are the set. -/
theorem parseAll_keys {paths : MetaPathSet} (h : ∀ p ∈ paths, MetaPath.parse p.key = .ok p) :
    parseAll paths.keys = .ok paths := by
  have hlist : Std.ExtTreeSet.ofList paths.toList = paths := Std.ExtTreeSet.ext_mem fun p => by
    rw [Std.ExtTreeSet.mem_ofList, List.contains_iff_mem, Std.ExtTreeSet.mem_toList]
  rw [keys, parseAll_map_key fun p hp => h p (Std.ExtTreeSet.mem_toList.mp hp), hlist]

end MetaPathSet

/-! ## Dumps -/

namespace PairDump

/-- Writes the dump to the end of a file, path by path. -/
def writeLines (d : PairDump) : StateM ByteArray Unit :=
  d.paths.toList.forM fun path => do
    modify (· ++ path.key.toUTF8)
    modify (· ++ "\n".toUTF8)

/-- A dump whose text has a line for each path, in the order of their bytes, and is read as the
same paths again. -/
structure ReadsBack (d : PairDump) : Prop where
  written : ∀ file, d.writeLines.run file = ((), file ++ d.lines.toUTF8)
  ended : d.lines.toList = d.paths.keys.flatMap fun key => key.toList ++ ['\n']
  count : d.lines.toList.count '\n' = d.paths.size
  lines : Text.bareLines d.lines = d.paths.keys
  increasing : (Text.bareLines d.lines).Pairwise fun line next =>
    line.toUTF8.data.toList < next.toUTF8.data.toList
  parse : MetaPathSet.parseAll (Text.bareLines d.lines) = .ok d.paths

theorem run_writeLines (d : PairDump) (file : ByteArray) :
    d.writeLines.run file = ((), file ++ d.lines.toUTF8) := by
  rw [writeLines, lines, MetaPathSet.keys, List.map_map]
  induction d.paths.toList generalizing file with
  | nil => exact congrArg (Prod.mk ()) ByteArray.append_empty.symm
  | cons path rest ih =>
      refine (ih (file ++ path.key.toUTF8 ++ "\n".toUTF8)).trans (congrArg (Prod.mk ()) ?_)
      rw [List.map_cons, String.join_cons]
      simp only [String.toUTF8, Function.comp_apply, String.toByteArray_append,
        ByteArray.append_assoc]

theorem toList_lines (d : PairDump) :
    d.lines.toList = d.paths.keys.flatMap fun key => key.toList ++ ['\n'] := by
  rw [lines, String.toList_join, List.flatMap_map]
  exact List.flatMap_congr fun key _ => String.toList_append

/-- Every path brings a line feed, and no line feed comes from anywhere else. -/
theorem count_lines {d : PairDump} (h : ∀ key ∈ d.paths.keys, '\n' ∉ key.toList) :
    d.lines.toList.count '\n' = d.paths.size := by
  have hline : ∀ key ∈ d.paths.keys,
      (List.count '\n' ∘ fun key => key.toList ++ ['\n']) key = 1 := by
    intro key hkey
    rw [Function.comp_apply, List.count_append, List.count_eq_zero.mpr (h key hkey)]
    rfl
  rw [toList_lines, List.count_flatMap, List.map_congr_left hline, List.map_const',
    List.sum_replicate, MetaPathSet.keys, List.length_map, Std.ExtTreeSet.length_toList,
    smul_eq_mul, Nat.mul_one]

theorem lines_eq_empty_iff {d : PairDump} : d.lines = "" ↔ d.paths = ∅ := by
  rw [← String.toList_eq_nil_iff, toList_lines, List.flatMap_eq_nil_iff,
    ← Std.ExtTreeSet.toList_eq_nil_iff]
  constructor
  · intro h
    refine List.eq_nil_iff_forall_not_mem.mpr fun p hp => ?_
    exact List.append_ne_nil_of_right_ne_nil _ (List.cons_ne_nil _ _)
      (h p.key (List.mem_map_of_mem hp))
  · intro h key hkey
    rw [MetaPathSet.keys, h] at hkey
    cases hkey

theorem readsBack {d : PairDump} (h : ∀ p ∈ d.paths, p.Made) : d.ReadsBack := by
  have hformed : ∀ p ∈ d.paths.toList, p.WellFormed := fun p hp =>
    (h p (Std.ExtTreeSet.mem_toList.mp hp)).wellFormed
  have hkeys : ∀ c : Char, c.isDigit = false → c ≠ MetaPath.separator →
      ∀ key ∈ d.paths.keys, c ∉ key.toList := by
    intro c hdigit hseparator key hkey
    obtain ⟨p, hp, rfl⟩ := List.mem_map.mp hkey
    exact (hformed p hp).not_mem_key hdigit hseparator
  have hfeed := hkeys '\n' (by decide) (by decide)
  have hlines : Text.bareLines d.lines = d.paths.keys :=
    Text.bareLines_join hfeed (hkeys '\r' (by decide) (by decide))
  exact
    { written := d.run_writeLines
      ended := d.toList_lines
      count := count_lines hfeed
      lines := hlines
      increasing := by
        rw [hlines, MetaPathSet.keys, List.pairwise_map]
        refine Std.ExtTreeSet.ordered_toList.imp_of_mem fun hp hq hlt => ?_
        exact MetaPath.bytes_lt_of_compare (hformed _ hp).isPlain (hformed _ hq).isPlain hlt
      parse := by
        rw [hlines]
        exact MetaPathSet.parseAll_keys fun p hp => (h p hp).wellFormed.parse }

/-- Two sets of which the one text tells are the same. -/
theorem ReadsBack.paths_eq {d d' : PairDump} (h : d.ReadsBack) (h' : d'.ReadsBack)
    (hlines : d.lines = d'.lines) : d.paths = d'.paths := by
  have hparse := h.parse
  rw [hlines, h'.parse] at hparse
  exact (Except.ok.inj hparse).symm

/-- A dump of meta-paths that were made has one line for each of them, in the order of their bytes,
and its lines are parsed as the same set. So different sets have different texts, and the empty
text is that of the empty set. -/
theorem lines_read_back :
    (∀ d : PairDump, (∀ p ∈ d.paths, p.Made) → d.ReadsBack) ∧
    (∀ d d' : PairDump, (∀ p ∈ d.paths, p.Made) → (∀ p ∈ d'.paths, p.Made) →
      (d.lines = d'.lines ↔ d.paths = d'.paths)) ∧
    ∀ d : PairDump, d.lines = "" ↔ d.paths = ∅ := by
  refine ⟨fun d h => readsBack h, fun d d' h h' => ⟨?_, ?_⟩, fun d => lines_eq_empty_iff⟩
  · intro hlines
    exact (readsBack h).paths_eq (readsBack h') hlines
  · intro hpaths
    rw [lines, hpaths, lines]

/-- A dump of three paths, given in another order than that of their bytes. -/
def unsorted : PairDump where
  maxLength := 1
  edgeSkip := 0
  start := ⟨10⟩
  stop := ⟨20⟩
  paths := .ofList ([⟨"1|0|2"⟩, ⟨"1|0|10"⟩, ⟨"0"⟩] : List MetaPath)

/-- In the text the paths are in order, and they are parsed as the set that they were. -/
theorem lines_read_back_unsorted :
    unsorted.ReadsBack ∧ unsorted.lines = "0\n1|0|10\n1|0|2\n" ∧
      MetaPathSet.parseAll ["0", "1|0|10", "1|0|2"] = .ok unsorted.paths := by
  have hkeys : ∀ p ∈ ([⟨"1|0|2"⟩, ⟨"1|0|10"⟩, ⟨"0"⟩] : List MetaPath),
      MetaPath.parse p.key = .ok p := by
    decide +kernel
  have hback : unsorted.ReadsBack := lines_read_back.1 unsorted fun p hp =>
    .listed (MetaPathSet.parseAll_map_key hkeys) hp
  have hlines : unsorted.lines = "0\n1|0|10\n1|0|2\n" := by decide +kernel
  have hbare : Text.bareLines "0\n1|0|10\n1|0|2\n" = ["0", "1|0|10", "1|0|2"] := by
    decide +kernel
  refine ⟨hback, hlines, ?_⟩
  rw [← hbare, ← hlines]
  exact hback.parse

/-- A text with a line feed in it is restored as one meta-path, and its dump is that of two. -/
theorem lines_restored :
    ∃ d d' : PairDump, d.paths = .ofList [MetaPath.restore "0\n1"] ∧ (∀ p ∈ d'.paths, p.Made) ∧
      d.lines = d'.lines ∧ d.paths ≠ d'.paths := by
  have hkeys : ∀ p ∈ ([⟨"0"⟩, ⟨"1"⟩] : List MetaPath), MetaPath.parse p.key = .ok p := by
    decide +kernel
  refine ⟨{ unsorted with paths := .ofList [MetaPath.restore "0\n1"] },
    { unsorted with paths := .ofList ([⟨"0"⟩, ⟨"1"⟩] : List MetaPath) },
    rfl, fun p hp => .listed (MetaPathSet.parseAll_map_key hkeys) hp, ?_,
    fun hpaths => absurd (congrArg Std.ExtTreeSet.size hpaths) ?_⟩
  · decide +kernel
  · decide +kernel

end PairDump

end Hetnet
