import Mathlib
import Hetnet.GraphText
import Hetnet.Proofs.Walks

/-!
# A text is read line by line

A reader cuts a text into lines, passes over those that say nothing and adds what the
others declare to what it has. Which lines say something is decided on their fields; that is
the same as deciding it on the line without the white space at its ends
(`isSignificant_iff`), because the first field begins where the white space ends.

`readLines_append` takes the last line off a text. It is the form in which everything about
readers is proved, by induction from the end of the text: the reader of the whole text
is the reader of the lines before, followed by one step that knows the number of its line.
-/

namespace Hetnet

namespace Text

/-! ## Significant lines -/

/-- The lines of a text, which line feeds separate and nothing else. -/
def linesOf (text : String) : List (List Char) := text.toList.splitOn '\n'

/-- A line without the white space at its ends. -/
def trimmed (line : List Char) : List Char := (line.dropWhile isBlank).rdropWhile isBlank

/-- A line on which something is left that does not begin a comment. -/
def Significant (line : List Char) : Prop := trimmed line ≠ [] ∧ (trimmed line).head? ≠ some '#'

instance (line : List Char) : Decidable (Significant line) :=
  inferInstanceAs (Decidable (_ ∧ _))

theorem head?_trimmed (line : List Char) :
    (trimmed line).head? = (line.dropWhile isBlank).head? := by
  cases hrest : line.dropWhile isBlank with
  | nil => rw [trimmed, hrest, List.rdropWhile_nil]
  | cons c rest =>
      have hc : ¬ isBlank c = true := by
        have hhead := List.head?_dropWhile_not isBlank line
        rw [hrest] at hhead
        simpa using hhead
      have hne : (c :: rest).rdropWhile isBlank ≠ [] := fun hnil =>
        hc (List.rdropWhile_eq_nil_iff.mp hnil c List.mem_cons_self)
      obtain ⟨dropped, hsplit⟩ := List.rdropWhile_prefix isBlank (l := c :: rest)
      obtain ⟨first, others, hkept⟩ := List.exists_cons_of_ne_nil hne
      rw [hkept] at hsplit
      rw [trimmed, hrest, hkept, (List.cons.inj hsplit).1]
      rfl

theorem fields_cons_of_blank {c : Char} (h : isBlank c = true) (line : List Char) :
    fields (c :: line) = fields line := by
  rw [fields, fields, List.splitOnP_cons_eq_if_modifyHead, if_pos h]
  rfl

/-- The first field begins with the first character that is not white space. -/
theorem head?_fields (line : List Char) :
    (fields line).head?.bind List.head? = (trimmed line).head? := by
  rw [head?_trimmed]
  induction line with
  | nil => rfl
  | cons c rest ih =>
      by_cases hc : isBlank c = true
      · rw [fields_cons_of_blank hc, ih, List.dropWhile_cons_of_pos hc]
      · obtain ⟨first, others, hsplit⟩ :=
          List.exists_cons_of_ne_nil (List.splitOnP_ne_nil isBlank rest)
        rw [fields, List.splitOnP_cons_eq_if_modifyHead, if_neg hc, hsplit,
          List.dropWhile_cons_of_neg hc]
        rfl

theorem ne_nil_of_mem_fields {line field : List Char} (h : field ∈ fields line) : field ≠ [] := by
  rintro rfl
  exact absurd (List.mem_filter.mp h).2 (by decide)

theorem isSignificant_iff {line : List Char} : isSignificant line = true ↔ Significant line := by
  have hhead := head?_fields line
  rw [isSignificant, Significant]
  cases hfields : fields line with
  | nil =>
      rw [hfields] at hhead
      have hnil : trimmed line = [] := List.head?_eq_none_iff.mp hhead.symm
      simp [hnil]
  | cons first others =>
      have hfirst : first ≠ [] := ne_nil_of_mem_fields (hfields ▸ List.mem_cons_self)
      rw [hfields] at hhead
      replace hhead : first.head? = (trimmed line).head? := hhead
      have hne : trimmed line ≠ [] := by
        intro hnil
        rw [hnil] at hhead
        exact hfirst (List.head?_eq_none_iff.mp hhead)
      simp [hhead, hne]

/-! ## Taking the last line off -/

/-- The fields of the significant lines among the given ones, with the numbers of the lines. -/
def significantOf (lines : List (List Char)) : List (Nat × List (List Char)) :=
  ((lines.zipIdx.map fun (line, i) => (i + 1, line)).filter fun (_, line) =>
    isSignificant line).map fun (number, line) => (number, fields line)

theorem significantOf_append (lines : List (List Char)) (line : List Char) :
    significantOf (lines ++ [line]) =
      significantOf lines ++
        if Significant line then [(lines.length + 1, fields line)] else [] := by
  rw [significantOf, List.zipIdx_append, List.map_append, List.filter_append, List.map_append]
  congr 1
  by_cases h : Significant line
  · rw [if_pos h]
    simp [isSignificant_iff.mpr h]
  · rw [if_neg h]
    simp [isSignificant_iff.not.mpr h]

/-- The builder after the given lines. -/
def readLines (lines : List (List Char)) : Except TextError GraphBuilder :=
  (significantOf lines).foldlM
    (fun b (number, fields) => (addElement b fields).mapError (.mk number)) ({} : GraphBuilder)

theorem readGraph_eq (text : String) :
    readGraph text = (readLines (linesOf text)).map GraphBuilder.build := by
  show readLines (linesOf text) >>= _ = _
  cases readLines (linesOf text) <;> rfl

theorem readLines_append (lines : List (List Char)) (line : List Char) :
    readLines (lines ++ [line]) = readLines lines >>= fun b =>
      if Significant line then (addElement b (fields line)).mapError (.mk (lines.length + 1))
      else .ok b := by
  rw [readLines, significantOf_append, List.foldlM_append]
  refine bind_congr fun b => ?_
  split
  · rw [List.foldlM_cons]
    show ((addElement b (fields line)).mapError _ >>= fun b => .ok b) = _
    cases addElement b (fields line) <;> rfl
  · rfl

end Text

end Hetnet
