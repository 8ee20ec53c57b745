import QueryHooks.Text.Lines

/-!
# Rows of a text

A row is a text that stays in one line.  Where rows and texts stand below each other, the lines of
the whole are the lines of its parts, as long as no part ends its own last line.

Main results:

- Definition `IsRow`: a text without characters that end lines.
- Definition `EndsOpen`: a text whose last line is not ended.
- Theorem `lines_row`: a row is the only line of itself.
- Theorem `lines_append_lf`: how the lines of two texts, one below the other, are put together.
- Theorem `lines_unlines`: rows below each other are the lines of the whole.
-/

namespace QueryHooks.Text

/-! ## Rows -/

/-- A text without the characters that end lines. -/
def IsRow (row : List Char) : Prop :=
  ∀ c ∈ row, c ≠ '\n' ∧ c ≠ '\r'

instance (row : List Char) : Decidable (IsRow row) :=
  List.decidableBAll _ row

@[simp]
theorem isRow_nil : IsRow [] := by
  intro c hc
  exact absurd hc List.not_mem_nil

/-- A row goes on with anything but the characters that end a line. -/
@[simp]
theorem isRow_cons {c : Char} {row : List Char} :
    IsRow (c :: row) ↔ (c ≠ '\n' ∧ c ≠ '\r') ∧ IsRow row := by
  simp [IsRow]

/-- Two texts make one row if both are rows. -/
@[simp]
theorem isRow_append {row later : List Char} : IsRow (row ++ later) ↔ IsRow row ∧ IsRow later := by
  rw [IsRow, IsRow, IsRow, List.forall_mem_append]

/-- A row in front of a line feed is the first line of a text. -/
theorem lines_row_lf {row : List Char} (h : IsRow row) (later : List Char) :
    lines (row ++ '\n' :: later) = row :: lines later := by
  induction row with
  | nil => simp
  | cons c row ih =>
    obtain ⟨⟨hlf, hcr⟩, hrow⟩ := isRow_cons.1 h
    rw [List.cons_append, lines_cons_of_ne hlf fun h => absurd h hcr, ih hrow]

/-- A row is the only line of itself. -/
theorem lines_row {row : List Char} (h : IsRow row) (hne : row ≠ []) : lines row = [row] := by
  induction row with
  | nil => exact absurd rfl hne
  | cons c row ih =>
    obtain ⟨⟨hlf, hcr⟩, hrow⟩ := isRow_cons.1 h
    rw [lines_cons_of_ne hlf fun h => absurd h hcr]
    cases row with
    | nil => simp
    | cons d row => rw [ih hrow (by simp)]

/-! ## Texts below each other -/

/-- A text whose last line is not ended. -/
def EndsOpen (text : List Char) : Prop :=
  ∃ c ∈ text.getLast?, c ≠ '\n' ∧ c ≠ '\r'

theorem EndsOpen.ne_nil {text : List Char} (h : EndsOpen text) : text ≠ [] := by
  rintro rfl
  simp [EndsOpen] at h

/-- What ends a text ends it also behind another one. -/
theorem EndsOpen.append {text later : List Char} (h : EndsOpen later) :
    EndsOpen (text ++ later) := by
  obtain ⟨c, hc, hopen⟩ := h
  refine ⟨c, ?_, hopen⟩
  rw [List.getLast?_append, Option.mem_def.1 hc]
  rfl

/-- A row that is not empty does not end in a line break. -/
theorem IsRow.endsOpen {row : List Char} (h : IsRow row) (hne : row ≠ []) : EndsOpen row := by
  refine ⟨row.getLast hne, List.getLast?_eq_some_getLast hne, ?_⟩
  exact h _ (List.getLast_mem hne)

/-- How a text ends does not depend on its first character. -/
theorem EndsOpen.of_cons {c : Char} {text : List Char} (h : EndsOpen (c :: text))
    (hne : text ≠ []) : EndsOpen text := by
  obtain ⟨d, hd, hopen⟩ := h
  refine ⟨d, ?_, hopen⟩
  rwa [List.getLast?_cons_of_ne_nil hne] at hd

/-- A text whose last line is not ended stands above another one with all its lines. -/
theorem lines_append_lf {text : List Char} (h : EndsOpen text) (later : List Char) :
    lines (text ++ '\n' :: later) = lines text ++ lines later := by
  fun_induction lines text with
  | case1 => simp [EndsOpen] at h
  | case2 rest ih =>
    have hne : rest ≠ [] := by
      rintro rfl
      simp [EndsOpen] at h
    have hrest := ih (h.of_cons hne)
    simp [hrest]
  | case3 rest ih =>
    have hne : rest ≠ [] := by
      rintro rfl
      simp [EndsOpen] at h
    have hrest := ih ((h.of_cons (by simp)).of_cons hne)
    simp [hrest]
  | case4 c rest hlf hcr hnil ih =>
    obtain rfl := lines_eq_nil_iff.1 hnil
    have hrow : IsRow [c] := by simpa [EndsOpen, IsRow] using h
    exact lines_row_lf hrow later
  | case5 c rest hlf hcr line behind hlines ih =>
    have hne : rest ≠ [] := by
      rintro rfl
      simp at hlines
    have hrest := ih (h.of_cons hne)
    have hhead : c = '\r' → (rest ++ '\n' :: later).head? ≠ some '\n' := by
      rintro rfl hhead
      obtain ⟨d, rest, rfl⟩ := List.exists_cons_of_ne_nil hne
      obtain rfl : d = '\n' := by simpa using hhead
      exact hcr rest rfl rfl
    rw [List.cons_append, lines_cons_of_ne hlf hhead, hrest, hlines]
    rfl

/-! ## Texts that are written out -/

/-- The characters of a text that is written out. -/
theorem toList_eq_of_ofList {text : String} {chars : List Char} (h : text = String.ofList chars) :
    text.toList = chars := by
  rw [h, String.toList_ofList]

/-- A text of which the characters are known is a row if none of them ends a line. -/
theorem isRow_of_ofList {text : String} {chars : List Char} (h : text = String.ofList chars)
    (hchars : chars.all (fun c => c != '\n' && c != '\r') = true) : IsRow text.toList := by
  rw [toList_eq_of_ofList h]
  simpa [IsRow] using hchars

/-- A text of which the characters are known ends as the last of them. -/
theorem endsOpen_of_ofList {text : String} {chars : List Char} (h : text = String.ofList chars)
    (hchars : chars.getLast?.any (fun c => c != '\n' && c != '\r') = true) :
    EndsOpen text.toList := by
  rw [toList_eq_of_ofList h]
  simpa [EndsOpen, Option.any_eq_true] using hchars

/-! ## Lists of texts below each other -/

/-- A line in front of others, with a line feed between them. -/
theorem unlines_cons (text : List Char) {texts : List (List Char)} (hne : texts ≠ []) :
    unlines (text :: texts) = text ++ '\n' :: unlines texts := by
  obtain ⟨next, texts, rfl⟩ := List.exists_cons_of_ne_nil hne
  simp [unlines, List.intercalate_cons_cons]

/-- Lines in front of others, with a line feed between them. -/
theorem unlines_append {texts later : List (List Char)} (hne : texts ≠ []) (hlater : later ≠ []) :
    unlines (texts ++ later) = unlines texts ++ '\n' :: unlines later := by
  induction texts with
  | nil => exact absurd rfl hne
  | cons text texts ih =>
    cases texts with
    | nil =>
      rw [List.singleton_append, unlines_cons text hlater]
      simp [unlines]
    | cons next texts =>
      have hrest := ih (by simp)
      rw [List.cons_append, unlines_cons text (by simp), hrest, unlines_cons text (by simp),
        List.append_assoc, List.cons_append]

/-- Blocks of texts below each other are all their texts below each other. -/
theorem unlines_map_unlines {blocks : List (List (List Char))} (h : ∀ block ∈ blocks, block ≠ []) :
    unlines (blocks.map unlines) = unlines blocks.flatten := by
  induction blocks with
  | nil => rfl
  | cons block blocks ih =>
    have hblock := h block List.mem_cons_self
    have hlater := ih fun other hother => h other (List.mem_cons_of_mem _ hother)
    cases blocks with
    | nil => simp [unlines]
    | cons next blocks =>
      have hnext : next ≠ [] := h next (by simp)
      rw [List.map_cons, unlines_cons _ (by simp), hlater, List.flatten_cons (L := next :: blocks),
        unlines_append hblock (by simp [hnext])]

/-- Texts below each other end as the last of them. -/
theorem endsOpen_unlines {texts : List (List Char)} {last : List Char}
    (hlast : texts.getLast? = some last) (h : EndsOpen last) : EndsOpen (unlines texts) := by
  obtain ⟨init, rfl⟩ := List.getLast?_eq_some_iff.1 hlast
  cases init with
  | nil => simpa [unlines] using h
  | cons text texts =>
    rw [unlines_append (by simp) (by simp), List.append_cons]
    exact EndsOpen.append (by simpa [unlines] using h)

/-- Texts whose last lines are not ended stand below each other with all their lines. -/
theorem lines_unlines_of_endsOpen {texts : List (List Char)} (h : ∀ text ∈ texts, EndsOpen text) :
    lines (unlines texts) = texts.flatMap lines := by
  induction texts with
  | nil => simp [unlines]
  | cons text texts ih =>
    have hlater := ih fun other hother => h other (List.mem_cons_of_mem _ hother)
    cases texts with
    | nil => simp [unlines]
    | cons next texts =>
      rw [unlines_cons text (by simp), lines_append_lf (h text List.mem_cons_self), hlater]
      exact List.flatMap_cons.symm

/-- Rows below each other, of which none is empty, are the lines of the whole. -/
theorem lines_unlines {rows : List (List Char)} (h : ∀ row ∈ rows, IsRow row ∧ row ≠ []) :
    lines (unlines rows) = rows := by
  rw [lines_unlines_of_endsOpen fun row hrow => (h row hrow).1.endsOpen (h row hrow).2]
  induction rows with
  | nil => rfl
  | cons row rows ih =>
    obtain ⟨hrow, hne⟩ := h row List.mem_cons_self
    have hlater := ih fun other hother => h other (List.mem_cons_of_mem _ hother)
    rw [List.flatMap_cons, lines_row hrow hne, hlater]
    rfl

end QueryHooks.Text
