import Mathlib.Data.List.Basic
import QueryHooks.Emission.Assembly
import QueryHooks.Proofs.Text.Returns

/-!
# Indentation of texts

A text without carriage returns that does not end in a line feed is its lines below each other.
Indentation puts spaces in front of those lines that are not empty, so it keeps their number and
their order, and it can be undone.

Main results:

- Definition `Text.AreLines`: rows that are the lines of such a text, of which the last is not
  empty.
- Theorems `Text.lines_unlines_of_areLines` and `Text.unlines_lines`: such rows and such texts
  determine each other.
- Definition `outdent?`: taking the spaces away again.
- Theorem `lines_indent`: the lines of an indented text are the indented lines of the text.
- Theorem `indentation_adds_up_and_is_undone`: indentation by some levels and then by others, and
  back.
-/

namespace QueryHooks

/-! ## Texts and their lines -/

namespace Text

/-- Rows that stay rows when they stand below each other: the last one is not empty. -/
structure AreLines (rows : List (List Char)) : Prop where
  isRow : ∀ row ∈ rows, IsRow row
  last_ne_nil : rows.getLast? ≠ some []

/-- Rows below each other are the lines of the whole, unless the last one is empty. -/
theorem lines_unlines_of_areLines {rows : List (List Char)} (h : AreLines rows) :
    lines (unlines rows) = rows := by
  rcases List.eq_nil_or_concat' rows with rfl | ⟨init, last, rfl⟩
  · simp [unlines]
  · have hinit : ∀ row ∈ init, '\n' ∉ row ∧ withoutReturn row = id row := by
      intro row hrow
      have hends := h.isRow row (List.mem_append_left _ hrow)
      refine ⟨fun hlf => (hends _ hlf).1 rfl, withoutReturn_of_ne ?_⟩
      intro hreturn
      exact (hends _ (List.mem_of_getLast? hreturn)).2 rfl
    have hlast : '\n' ∉ last := fun hlf => (h.isRow last (by simp) _ hlf).1 rfl
    have hne : last ≠ [] := by simpa using h.last_ne_nil
    rw [lines_unlines_concat (fun row hrow => (hinit row hrow).1) hlast hne,
      List.map_congr_left fun row hrow => (hinit row hrow).2, List.map_id]

theorem unlines_cons_cons (c : Char) (row : List Char) (rows : List (List Char)) :
    unlines ((c :: row) :: rows) = c :: unlines (row :: rows) := by
  cases rows with
  | nil => simp [unlines]
  | cons next rows =>
    have hne : next :: rows ≠ [] := List.cons_ne_nil next rows
    rw [unlines_cons _ hne, unlines_cons _ hne, List.cons_append]

/--
A text is its lines below each other if it has no carriage return and no line feed at its end.
-/
theorem unlines_lines {text : List Char} (hreturn : '\r' ∉ text)
    (hend : text.getLast? ≠ some '\n') :
    unlines (lines text) = text := by
  fun_induction lines text with
  | case1 => rfl
  | case2 rest ih =>
    have hne : rest ≠ [] := by
      rintro rfl
      exact hend rfl
    rw [List.getLast?_cons_of_ne_nil hne] at hend
    rw [unlines_cons _ (mt lines_eq_nil_iff.1 hne), ih (List.not_mem_of_not_mem_cons hreturn) hend,
      List.nil_append]
  | case3 rest ih => exact absurd List.mem_cons_self hreturn
  | case4 c rest _ _ hnil ih =>
    obtain rfl := lines_eq_nil_iff.1 hnil
    simp [unlines]
  | case5 c rest _ _ line later hlines ih =>
    have hne : rest ≠ [] := by
      rintro rfl
      simp at hlines
    rw [List.getLast?_cons_of_ne_nil hne] at hend
    rw [unlines_cons_cons, ← hlines, ih (List.not_mem_of_not_mem_cons hreturn) hend]

/-- Such a text has lines of which the last is not empty. -/
theorem areLines_lines {text : List Char} (hreturn : '\r' ∉ text)
    (hend : text.getLast? ≠ some '\n') :
    AreLines (lines text) where
  isRow := by
    intro row hrow c hc
    obtain ⟨hlf, hmem⟩ := mem_of_mem_lines hrow
    constructor
    · rintro rfl
      exact hlf hc
    · rintro rfl
      exact hreturn (hmem _ hc)
  last_ne_nil := by
    -- An empty last line would leave a line feed at the end, or no text at all.
    intro hlast
    obtain ⟨init, hinit⟩ := List.getLast?_eq_some_iff.1 hlast
    have htext := unlines_lines hreturn hend
    rw [hinit] at htext
    by_cases hne : init = []
    · subst hne
      obtain rfl : [] = text := htext
      simp at hinit
    · apply hend
      rw [← htext, unlines_append hne (by simp)]
      simp [unlines]

end Text

open Text (AreLines)

/-! ## Indented lines -/

/--
The line that is left of a line without two spaces for each level, if it has them or is empty.
-/
def outdentLine? (levels : Nat) (line : List Char) : Option (List Char) :=
  if line.isEmpty then some [] else line.dropPrefix? (List.replicate (2 * levels) ' ')

/-- Indenting neither empties a line nor fills an empty one. -/
theorem indentLine_eq_nil_iff {levels : Nat} {line : List Char} :
    indentLine levels line = [] ↔ line = [] := by
  cases line with
  | nil => simp [indentLine]
  | cons c line => simp [indentLine]

/-- What is put in front of a line is taken away again. -/
theorem outdentLine?_indentLine (levels : Nat) (line : List Char) :
    outdentLine? levels (indentLine levels line) = some line := by
  cases line with
  | nil => rfl
  | cons c line =>
    rw [outdentLine?, if_neg (by simp [indentLine])]
    exact List.dropPrefix?_append_of_beq _ (beq_self_eq_true _)

/-- The spaces of a line that is indented twice stand side by side. -/
theorem indentLine_indentLine (m n : Nat) (line : List Char) :
    indentLine n (indentLine m line) = indentLine (m + n) line := by
  cases line with
  | nil => rfl
  | cons c line =>
    have hsum : 2 * (m + n) = 2 * n + 2 * m := by omega
    rw [indentLine, if_neg (by simp [indentLine]), indentLine, if_neg (by simp), indentLine,
      if_neg (by simp), ← List.append_assoc, List.replicate_append_replicate, hsum]

/-- Indented lines end as lines do. -/
theorem areLines_map_indentLine {rows : List (List Char)} (h : AreLines rows) (levels : Nat) :
    AreLines (rows.map (indentLine levels)) where
  isRow := by
    rw [List.forall_mem_map]
    intro row hrow c hc
    unfold indentLine at hc
    split at hc
    · exact absurd hc List.not_mem_nil
    · rcases List.mem_append.1 hc with hspace | hline
      · obtain rfl := List.eq_of_mem_replicate hspace
        decide
      · exact h.isRow row hrow c hline
  last_ne_nil := by
    intro hlast
    rw [List.getLast?_map, Option.map_eq_some_iff] at hlast
    obtain ⟨row, hrow, hempty⟩ := hlast
    rw [indentLine_eq_nil_iff] at hempty
    exact h.last_ne_nil (by rw [hrow, hempty])

/-! ## Indented texts -/

/--
A text without two spaces for each level in front of its lines, if all lines that are not empty have
them.
-/
def outdent? (levels : Nat) (text : String) : Option String :=
  ((Text.lines text.toList).mapM (outdentLine? levels)).map fun rows =>
    String.ofList (Text.unlines rows)

variable {source : String}

/-- The lines of an indented text are the lines of the text, indented. -/
theorem lines_indent (hreturn : '\r' ∉ source.toList) (hend : source.toList.getLast? ≠ some '\n')
    (levels : Nat) :
    Text.lines (indent levels source).toList =
      (Text.lines source.toList).map (indentLine levels) := by
  rw [indent, String.toList_ofList]
  apply Text.lines_unlines_of_areLines
  exact areLines_map_indentLine (Text.areLines_lines hreturn hend) levels

/-- What indentation puts in front of the lines of a text is taken away again. -/
theorem outdent?_indent (hreturn : '\r' ∉ source.toList) (hend : source.toList.getLast? ≠ some '\n')
    (levels : Nat) : outdent? levels (indent levels source) = some source := by
  have hundone : outdentLine? levels ∘ indentLine levels = fun line => pure (id line) := by
    funext line
    exact outdentLine?_indentLine levels line
  have htext := Text.unlines_lines hreturn hend
  rw [outdent?, lines_indent hreturn hend, List.mapM_map, hundone, List.mapM_pure, List.map_id]
  change some (String.ofList (Text.unlines (Text.lines source.toList))) = some source
  rw [htext, String.ofList_toList]

/-- A text that is indented twice has all the levels. -/
theorem indent_indent (hreturn : '\r' ∉ source.toList) (hend : source.toList.getLast? ≠ some '\n')
    (m n : Nat) : indent n (indent m source) = indent (m + n) source := by
  have htwice : indentLine n ∘ indentLine m = indentLine (m + n) := by
    funext line
    exact indentLine_indentLine m n line
  rw [indent, lines_indent hreturn hend, List.map_map, htwice, indent]

/--
A text without carriage returns that does not end in a line feed has as many lines as before when it
is indented, and the same ones of them are empty.  If two spaces for each level are taken away from
all lines that are not empty, it is the text again.  Levels add up.
-/
theorem indentation_adds_up_and_is_undone (hreturn : '\r' ∉ source.toList)
    (hend : source.toList.getLast? ≠ some '\n') (m n : Nat) :
    (Text.lines (indent n source).toList).length = (Text.lines source.toList).length ∧
    (∀ place : Nat, (Text.lines (indent n source).toList)[place]? = some [] ↔
      (Text.lines source.toList)[place]? = some []) ∧
    outdent? n (indent n source) = some source ∧
    indent n (indent m source) = indent (m + n) source := by
  refine ⟨?_, ?_, outdent?_indent hreturn hend n, indent_indent hreturn hend m n⟩
  · rw [lines_indent hreturn hend, List.length_map]
  · intro place
    rw [lines_indent hreturn hend, List.getElem?_map]
    cases (Text.lines source.toList)[place]? with
    | none => simp
    | some line => simp [indentLine_eq_nil_iff]

/--
A text with empty lines at its beginning and between others, and with a line of spaces at its end.
-/
def spacedText : String :=
  "\na:\n\n  b\n "

/-- The text with empty lines is indented by one level and then by two, and by three at once. -/
theorem indent_spacedText :
    '\r' ∉ spacedText.toList ∧ spacedText.toList.getLast? ≠ some '\n' ∧
      (Text.lines (indent 2 spacedText).toList).length = 5 ∧
      outdent? 2 (indent 2 spacedText) = some spacedText ∧
      indent 2 (indent 1 spacedText) = "\n      a:\n\n        b\n       " := by
  have hreturn : '\r' ∉ spacedText.toList := by decide
  have hend : spacedText.toList.getLast? ≠ some '\n' := by decide
  obtain ⟨hlength, _, hundone, hsum⟩ := indentation_adds_up_and_is_undone hreturn hend 1 2
  refine ⟨hreturn, hend, ?_, hundone, ?_⟩
  · rw [hlength]
    decide
  · rw [hsum]
    decide

end QueryHooks
