import QueryHooks.Proofs.Casing.Words
import QueryHooks.Proofs.Text.Letters

/-!
# Reading PascalCase

A text in PascalCase can be read back: a capital begins a word, an underscore stands in front of a
word that begins with a digit, and all else goes on with the word before it.  What is read are the
words that were written, in lower case.  So two lists of words are written alike exactly if they
agree up to case.

Main results:

- Definition `readPascal`: the words that a text in PascalCase is made of, in lower case.
- Theorem `readPascal_pascalOfWords`: reading undoes writing, up to case.
- Theorem `pascalOfWords_eq_iff`: two lists of words are written alike exactly if they agree up to
  case.
-/

namespace QueryHooks.Casing

/-! ## Lower case -/

/-- A word with all its letters in lower case. -/
def lower (word : List Char) : List Char :=
  word.map Char.toLower

/-- The words of a text, all in lower case. -/
def lowerWords (text : String) : List (List Char) :=
  (words text.toList).map lower

/-- Writing a word with a capital does not depend on its case. -/
theorem capitalize_lower (word : List Char) : capitalize (lower word) = capitalize word := by
  cases word with
  | nil => rfl
  | cons c rest => simp [lower, capitalize]

/-- Nor does joining it to the word before it. -/
theorem joined_lower (word : List Char) : joined (lower word) = joined word := by
  have hhead : (lower word).head?.any Char.isDigit = word.head?.any Char.isDigit := by
    cases word with
    | nil => rfl
    | cons c rest => simp [lower]
  rw [joined, joined, hhead, capitalize_lower]

/-- Words are written the same in any case. -/
theorem pascalOfWords_map_lower (ws : List (List Char)) :
    pascalOfWords (ws.map lower) = pascalOfWords ws := by
  cases ws with
  | nil => rfl
  | cons word later => simp [pascalOfWords, capitalize_lower, joined_lower, List.flatMap_map]

/-! ## Reading -/

/--
What follows in a text in PascalCase, split in two: the rest of the word that is open, and the words
after that one.
-/
def readAfter : List Char → List Char × List (List Char)
  | [] => ([], [])
  | c :: rest =>
    let (word, later) := readAfter rest
    if c = '_' then ([], word :: later)
    else if c.isUpper then ([], (c.toLower :: word) :: later)
    else (c :: word, later)

/-- The words that a text in PascalCase is made of, in lower case. -/
def readPascal (text : List Char) : List (List Char) :=
  consWord (readAfter text).1 (readAfter text).2

/-- Whether a character goes on with the word that is open. -/
def goesOn (c : Char) : Bool :=
  c != '_' && !c.isUpper

/-- An underscore ends a word, and the next one begins as it stands. -/
theorem readAfter_underscore (rest : List Char) :
    readAfter ('_' :: rest) = ([], (readAfter rest).1 :: (readAfter rest).2) := by
  simp [readAfter]

/-- A capital ends a word and is the first letter of the next one. -/
theorem readAfter_of_isUpper {c : Char} (h : c.isUpper = true) (rest : List Char) :
    readAfter (c :: rest) = ([], (c.toLower :: (readAfter rest).1) :: (readAfter rest).2) := by
  have hne : c ≠ '_' := by
    rintro rfl
    exact absurd h (by decide)
  simp [readAfter, hne, h]

/-- Characters that go on with a word are its next characters. -/
theorem readAfter_append {chars : List Char} (h : ∀ c ∈ chars, goesOn c = true)
    (text : List Char) :
    readAfter (chars ++ text) = (chars ++ (readAfter text).1, (readAfter text).2) := by
  induction chars with
  | nil => rfl
  | cons c rest ih =>
    have hc : c ≠ '_' ∧ c.isUpper = false := by simpa [goesOn] using h c List.mem_cons_self
    have hrest := ih fun d hd => h d (List.mem_cons_of_mem _ hd)
    simp [readAfter, hrest, hc.1, hc.2]

/-! ## Reading what was written -/

theorem ne_underscore_of_isAlphanum {c : Char} (h : c.isAlphanum = true) : c ≠ '_' := by
  rintro rfl
  exact absurd h (by decide)

/-- In lower case, a letter or digit goes on with the word before it. -/
theorem goesOn_of_mem_lower {word : List Char} (h : ∀ c ∈ word, c.isAlphanum = true) :
    ∀ c ∈ lower word, goesOn c = true := by
  intro c hc
  obtain ⟨d, hd, rfl⟩ := List.mem_map.1 hc
  have hne : d.toLower ≠ '_' :=
    ne_underscore_of_isAlphanum (by simpa using h d hd)
  simp [goesOn, hne]

/-- A word that begins with a digit is written in lower case. -/
theorem capitalize_of_isDigit {c : Char} {rest : List Char} (h : c.isDigit = true) :
    capitalize (c :: rest) = lower (c :: rest) := by
  obtain ⟨hupper, hlower⟩ := Text.case_of_isDigit h
  rw [capitalize, Char.toUpper_eq_of_not_isLower (by simp [hlower]), lower, List.map_cons,
    Char.toLower_eq_of_not_isUpper (by simp [hupper])]

/-- A word that begins with a letter is read as a word of its own. -/
theorem readAfter_capitalize_of_isAlpha {c : Char} {rest : List Char} (hc : c.isAlpha = true)
    (hrest : ∀ d ∈ rest, d.isAlphanum = true) (text : List Char) :
    readAfter (capitalize (c :: rest) ++ text) =
      ([], (lower (c :: rest) ++ (readAfter text).1) :: (readAfter text).2) := by
  have hupper : c.toUpper.isUpper = true := by simp [hc]
  have htail := readAfter_append (goesOn_of_mem_lower hrest) text
  rw [capitalize, List.cons_append, readAfter_of_isUpper hupper]
  rw [lower] at htail
  simp [htail, lower]

/-- A word behind another one is read as a word of its own. -/
theorem readAfter_joined {word : List Char} (h : IsWord word) (text : List Char) :
    readAfter (joined word ++ text) =
      ([], (lower word ++ (readAfter text).1) :: (readAfter text).2) := by
  cases word with
  | nil => exact absurd rfl h.ne_nil
  | cons c rest =>
    by_cases hdigit : c.isDigit = true
    · have htext := readAfter_append (goesOn_of_mem_lower h.isAlphanum) text
      rw [joined, List.head?_cons, Option.any_some, if_pos hdigit, capitalize_of_isDigit hdigit,
        List.cons_append, readAfter_underscore, htext]
    · have halpha : c.isAlpha = true := by
        have hc := h.isAlphanum c List.mem_cons_self
        simpa [Char.isAlphanum, hdigit] using hc
      rw [joined, List.head?_cons, Option.any_some, if_neg hdigit]
      exact readAfter_capitalize_of_isAlpha halpha
        (fun d hd => h.isAlphanum d (List.mem_cons_of_mem _ hd)) text

/-- Words behind another one are read back, in lower case. -/
theorem readAfter_flatMap_joined {ws : List (List Char)} (h : ∀ w ∈ ws, IsWord w) :
    readAfter (ws.flatMap joined) = ([], ws.map lower) := by
  induction ws with
  | nil => rfl
  | cons word later ih =>
    have hlater := ih fun w hw => h w (List.mem_cons_of_mem _ hw)
    rw [List.flatMap_cons, readAfter_joined (h word List.mem_cons_self), hlater]
    simp

/-- What was written in PascalCase is read back, in lower case. -/
theorem readPascal_pascalOfWords {ws : List (List Char)} (h : ∀ w ∈ ws, IsWord w) :
    readPascal (pascalOfWords ws) = ws.map lower := by
  cases ws with
  | nil => rfl
  | cons word later =>
    have hword := h word List.mem_cons_self
    have hlater := readAfter_flatMap_joined fun w hw => h w (List.mem_cons_of_mem _ hw)
    rw [pascalOfWords, readPascal]
    cases word with
    | nil => exact absurd rfl hword.ne_nil
    | cons c rest =>
      by_cases hdigit : c.isDigit = true
      · rw [capitalize_of_isDigit hdigit, readAfter_append (goesOn_of_mem_lower hword.isAlphanum),
          hlater]
        simp [consWord, lower]
      · have halpha : c.isAlpha = true := by
          have hc := hword.isAlphanum c List.mem_cons_self
          simpa [Char.isAlphanum, hdigit] using hc
        rw [readAfter_capitalize_of_isAlpha halpha
          (fun d hd => hword.isAlphanum d (List.mem_cons_of_mem _ hd)), hlater]
        simp [consWord]

/-! ## Equality of what was written -/

/-- Lists of words are written alike exactly if they agree up to case. -/
theorem pascalOfWords_eq_iff {ws vs : List (List Char)} (hws : ∀ w ∈ ws, IsWord w)
    (hvs : ∀ v ∈ vs, IsWord v) :
    pascalOfWords ws = pascalOfWords vs ↔ ws.map lower = vs.map lower := by
  constructor
  · intro h
    rw [← readPascal_pascalOfWords hws, h, readPascal_pascalOfWords hvs]
  · intro h
    rw [← pascalOfWords_map_lower ws, h, pascalOfWords_map_lower]

end QueryHooks.Casing
