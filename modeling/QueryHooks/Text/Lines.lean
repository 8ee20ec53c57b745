/-!
# Lines of a text

A line ends at a line feed, with the carriage return in front of it if there is one.  The end of the
text ends its last line too, so a final line feed adds no empty line.

Main statements: a character that ends no line joins the first line of what follows it
(`lines_cons_of_ne`), and only the empty text has no lines (`lines_eq_nil_iff`).
-/

namespace QueryHooks.Text

/-- The lines of a text, without their ends. -/
def lines : List Char → List (List Char)
  | [] => []
  | '\n' :: rest => [] :: lines rest
  | '\r' :: '\n' :: rest => [] :: lines rest
  | c :: rest =>
    match lines rest with
    | [] => [[c]]
    | line :: later => (c :: line) :: later

@[simp]
theorem lines_nil : lines [] = [] := by
  simp [lines]

/-- A line feed ends a line. -/
@[simp]
theorem lines_lf (rest : List Char) : lines ('\n' :: rest) = [] :: lines rest := by
  simp [lines]

/-- A carriage return and a line feed end a line together. -/
@[simp]
theorem lines_crlf (rest : List Char) : lines ('\r' :: '\n' :: rest) = [] :: lines rest := by
  simp [lines]

/-- A character that ends no line goes to the front of the first line of what follows. -/
theorem lines_cons_of_ne {c : Char} {rest : List Char} (hlf : c ≠ '\n')
    (hcr : c = '\r' → rest.head? ≠ some '\n') :
    lines (c :: rest) =
      match lines rest with
      | [] => [[c]]
      | line :: later => (c :: line) :: later := by
  rw [lines]
  · exact hlf
  · rintro tail rfl rfl
    exact hcr rfl rfl

/-- Only the empty text has no lines. -/
theorem lines_eq_nil_iff {text : List Char} : lines text = [] ↔ text = [] := by
  constructor
  · intro h
    fun_cases lines text
    · rfl
    all_goals simp_all [lines]
  · rintro rfl
    exact lines_nil

/-- Write lines one below the other, with no line feed after the last. -/
def unlines (rows : List (List Char)) : List Char :=
  ['\n'].intercalate rows

end QueryHooks.Text
