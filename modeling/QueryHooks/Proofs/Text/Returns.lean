import QueryHooks.Proofs.Text.Rows

/-!
# Lines that end in a carriage return

A carriage return in front of a line feed belongs to the end of the line.  So a text without line
feeds loses the carriage return at its end, if it has one, when it stands above other lines.

Main results:

- Theorem `lines_line_lf`: a text without line feeds is the first line when a line feed stands
  behind it.
- Theorem `mem_of_mem_lines`: what the lines of a text are made of.
- Theorem `lines_unlines_concat`: the lines of texts that are put below each other.
-/

namespace QueryHooks.Text

/-- A text without the carriage return at its end, if there is one. -/
def withoutReturn (row : List Char) : List Char :=
  if row.getLast? = some '\r' then row.dropLast else row

@[simp]
theorem withoutReturn_nil : withoutReturn [] = [] :=
  rfl

/-- A carriage return at the end is taken away. -/
theorem withoutReturn_concat (row : List Char) : withoutReturn (row ++ ['\r']) = row := by
  simp [withoutReturn]

/-- A row that does not end in a carriage return is kept. -/
theorem withoutReturn_of_ne {row : List Char} (h : row.getLast? ≠ some '\r') :
    withoutReturn row = row :=
  if_neg h

/--
A text is one without a carriage return at its end, or such a carriage return stands behind it.
-/
theorem withoutReturn_cases (row : List Char) :
    (row.getLast? ≠ some '\r' ∧ withoutReturn row = row) ∨ row = withoutReturn row ++ ['\r'] := by
  by_cases h : row.getLast? = some '\r'
  · right
    obtain ⟨init, rfl⟩ := List.getLast?_eq_some_iff.1 h
    rw [withoutReturn_concat]
  · exact .inl ⟨h, withoutReturn_of_ne h⟩

theorem length_withoutReturn_le (row : List Char) : (withoutReturn row).length ≤ row.length := by
  rcases withoutReturn_cases row with ⟨_, hsame⟩ | hconcat
  · exact Nat.le_of_eq (congrArg List.length hsame)
  · have hlength := congrArg List.length hconcat
    rw [List.length_append] at hlength
    omega

/-- No character is added. -/
theorem mem_of_mem_withoutReturn {c : Char} {row : List Char} (h : c ∈ withoutReturn row) :
    c ∈ row := by
  rcases withoutReturn_cases row with ⟨_, hsame⟩ | hconcat
  · rwa [hsame] at h
  · rw [hconcat]
    exact List.mem_append_left _ h

/-- Only the last character can be taken away. -/
theorem withoutReturn_cons {c : Char} {row : List Char} (h : row = [] → c ≠ '\r') :
    withoutReturn (c :: row) = c :: withoutReturn row := by
  cases row with
  | nil =>
    have hc := h rfl
    simp [withoutReturn, hc]
  | cons d row =>
    have hlast : (c :: d :: row).getLast? = (d :: row).getLast? := List.getLast?_cons_cons
    rw [withoutReturn, withoutReturn, hlast]
    split <;> rfl

/-- A text without line feeds is the first line when a line feed stands behind it. -/
theorem lines_line_lf {row : List Char} (h : '\n' ∉ row) (later : List Char) :
    lines (row ++ '\n' :: later) = withoutReturn row :: lines later := by
  induction row with
  | nil => simp
  | cons c row ih =>
    rw [List.mem_cons, not_or] at h
    obtain ⟨hlf, hrow⟩ := h
    by_cases hreturn : row = [] ∧ c = '\r'
    · obtain ⟨rfl, rfl⟩ := hreturn
      exact lines_crlf later
    · have hhead : c = '\r' → (row ++ '\n' :: later).head? ≠ some '\n' := by
        rintro rfl
        cases row with
        | nil => exact absurd ⟨rfl, rfl⟩ hreturn
        | cons d row =>
          rw [List.mem_cons, not_or] at hrow
          simpa using Ne.symm hrow.1
      have hc : row = [] → c ≠ '\r' := fun hnil hcr => hreturn ⟨hnil, hcr⟩
      rw [List.cons_append, lines_cons_of_ne (Ne.symm hlf) hhead, ih hrow, withoutReturn_cons hc]

/-- A text without line feeds is its only line. -/
theorem lines_line {row : List Char} (h : '\n' ∉ row) (hne : row ≠ []) : lines row = [row] := by
  induction row with
  | nil => exact absurd rfl hne
  | cons c row ih =>
    rw [List.mem_cons, not_or] at h
    obtain ⟨hlf, hrow⟩ := h
    have hhead : c = '\r' → row.head? ≠ some '\n' := by
      intro _ hhead
      exact hrow (List.mem_of_mem_head? hhead)
    rw [lines_cons_of_ne (Ne.symm hlf) hhead]
    cases row with
    | nil => simp
    | cons d row => rw [ih hrow (by simp)]

/-- The characters of a line are characters of the text, and none of them is a line feed. -/
theorem mem_of_mem_lines {text row : List Char} (h : row ∈ lines text) :
    '\n' ∉ row ∧ ∀ c ∈ row, c ∈ text := by
  fun_induction lines text generalizing row with
  | case1 => exact absurd h List.not_mem_nil
  | case2 rest ih =>
    rcases List.mem_cons.1 h with rfl | hlater
    · simp
    · obtain ⟨hlf, hmem⟩ := ih hlater
      exact ⟨hlf, fun c hc => List.mem_cons_of_mem _ (hmem c hc)⟩
  | case3 rest ih =>
    rcases List.mem_cons.1 h with rfl | hlater
    · simp
    · obtain ⟨hlf, hmem⟩ := ih hlater
      exact ⟨hlf, fun c hc => List.mem_cons_of_mem _ (List.mem_cons_of_mem _ (hmem c hc))⟩
  | case4 c rest hlf hcr hnil ih =>
    obtain rfl := List.mem_singleton.1 h
    exact ⟨by simpa using Ne.symm hlf, by simp⟩
  | case5 c rest hlf hcr line behind hlines ih =>
    rcases List.mem_cons.1 h with rfl | hlater
    · obtain ⟨hline, hmem⟩ := ih (by rw [hlines]; exact List.mem_cons_self)
      refine ⟨by simpa using ⟨Ne.symm hlf, hline⟩, ?_⟩
      intro d hd
      rcases List.mem_cons.1 hd with rfl | hd
      · exact List.mem_cons_self
      · exact List.mem_cons_of_mem _ (hmem d hd)
    · obtain ⟨hline, hmem⟩ := ih (by rw [hlines]; exact List.mem_cons_of_mem _ hlater)
      exact ⟨hline, fun d hd => List.mem_cons_of_mem _ (hmem d hd)⟩

/--
Texts without line feeds below each other are the lines of the whole, less the carriage returns at
their ends.
-/
theorem lines_unlines_concat {rows : List (List Char)} {last : List Char}
    (h : ∀ row ∈ rows, '\n' ∉ row)
    (hlast : '\n' ∉ last) (hne : last ≠ []) :
    lines (unlines (rows ++ [last])) = rows.map withoutReturn ++ [last] := by
  induction rows with
  | nil => simpa [unlines] using lines_line hlast hne
  | cons row rows ih =>
    rw [List.cons_append, unlines_cons row (by simp), lines_line_lf (h row List.mem_cons_self),
      ih fun other hother => h other (List.mem_cons_of_mem _ hother)]
    rfl

end QueryHooks.Text
