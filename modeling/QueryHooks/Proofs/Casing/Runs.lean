import QueryHooks.Proofs.Casing.Separators

/-!
# Runs of letters and digits

A text is made of runs of letters and digits with separators around them.  The words of a text are
those of its runs, one run after the other, so PascalCase does not depend on what the separators
are, on how many of them stand side by side and on whether there are any at the ends.

Main results:

- Definition `runs`: the letters and digits of a text that stand side by side.
- Theorem `separator_induction`: induction on the separators of a text.
- Theorem `words_eq_flatMap_runs`: the words of a text are the words of its runs.
- Theorem `pascalOfWords_append`: what joins words in PascalCase to the words in front of them.
- Theorem `pascal_of_separated_texts`: PascalCase of two texts with a separator between them.
-/

namespace QueryHooks.Casing

/-! ## Runs -/

/-- The longest pieces of a text that are letters and digits only, in order. -/
def runs (text : List Char) : List (List Char) :=
  (text.splitOnP fun c => !c.isAlphanum).filter (!·.isEmpty)

@[simp]
theorem runs_nil : runs [] = [] :=
  rfl

/-- The runs around a separator are those in front of it and those behind it. -/
theorem runs_append_separator {separator : Char} (hseparator : separator.isAlphanum = false)
    (text rest : List Char) : runs (text ++ separator :: rest) = runs text ++ runs rest := by
  rw [runs, List.splitOnP_append_cons _ _ (by simp [hseparator]), List.filter_append, runs, runs]

/-- Letters and digits alone are one run. -/
theorem runs_of_isAlphanum {text : List Char} (h : ∀ c ∈ text, c.isAlphanum = true) :
    runs text = [text].filter (!·.isEmpty) := by
  rw [runs, List.splitOnP_eq_singleton (by simpa using h)]

/--
What holds of letters and digits alone, and of two texts with a separator between them if it holds
of both, holds of every text.
-/
@[elab_as_elim]
theorem separator_induction {motive : List Char → Prop}
    (alphanum : ∀ text, (∀ c ∈ text, c.isAlphanum = true) → motive text)
    (separator : ∀ text separator rest, separator.isAlphanum = false → motive text → motive rest →
      motive (text ++ separator :: rest))
    (text : List Char) : motive text := by
  induction hlength : text.length using Nat.strong_induction_on generalizing text with
  | _ length ih =>
    by_cases h : ∀ c ∈ text, c.isAlphanum = true
    · exact alphanum text h
    · -- A separator parts the text into two shorter ones.
      obtain ⟨between, hmem, hbetween⟩ : ∃ c ∈ text, c.isAlphanum = false := by simpa using h
      obtain ⟨front, rest, rfl⟩ := List.append_of_mem hmem
      have hfront : front.length < length := by simp [← hlength]
      have hrest : rest.length < length := by simp [← hlength]; omega
      exact separator front between rest hbetween (ih _ hfront front rfl) (ih _ hrest rest rfl)

/-- The words of a text are the words of its runs. -/
theorem words_eq_flatMap_runs (text : List Char) : words text = (runs text).flatMap words := by
  induction text using separator_induction with
  | alphanum text h =>
    cases text with
    | nil => rfl
    | cons c rest => simp [runs_of_isAlphanum h]
  | separator text separator rest hseparator ih ihRest =>
    rw [words_append_separator hseparator, runs_append_separator hseparator, List.flatMap_append,
      ← ih, ← ihRest]

/-- Texts with the same runs have the same PascalCase. -/
theorem pascal_eq_of_runs_eq {text other : String} (h : runs text.toList = runs other.toList) :
    pascal text = pascal other := by
  rw [pascal, pascal, words_eq_flatMap_runs, h, ← words_eq_flatMap_runs]

/-! ## Separators side by side -/

/-- A text has separators only. -/
def IsSeparation (text : String) : Prop :=
  ∀ c ∈ text.toList, c.isAlphanum = false

/-- Separators between two texts part their runs, however many there are. -/
theorem runs_append_separators {separators : List Char} (hne : separators ≠ [])
    (h : ∀ c ∈ separators, c.isAlphanum = false) (text rest : List Char) :
    runs (text ++ separators ++ rest) = runs text ++ runs rest := by
  induction separators generalizing text with
  | nil => exact absurd rfl hne
  | cons separator separators ih =>
    obtain ⟨hseparator, hlater⟩ := List.forall_mem_cons.1 h
    rw [List.append_assoc, List.cons_append, runs_append_separator hseparator]
    cases separators with
    | nil => rfl
    | cons next separators =>
      have hrest := ih (by simp) hlater []
      rw [List.nil_append] at hrest
      rw [hrest]
      rfl

/-- Separators at the ends of a text leave its runs as they are. -/
theorem runs_between_separators {before after : List Char}
    (hbefore : ∀ c ∈ before, c.isAlphanum = false)
    (hafter : ∀ c ∈ after, c.isAlphanum = false) (text : List Char) :
    runs (before ++ text ++ after) = runs text := by
  have hfront : runs (before ++ text) = runs text := by
    cases before with
    | nil => rfl
    | cons c before =>
      have h := runs_append_separators (List.cons_ne_nil c before) hbefore [] text
      rwa [List.nil_append, runs_nil, List.nil_append] at h
  cases after with
  | nil => rwa [List.append_nil]
  | cons c after =>
    have h := runs_append_separators (List.cons_ne_nil c after) hafter (before ++ text) []
    rwa [List.append_nil, runs_nil, List.append_nil, hfront] at h

/-! ## PascalCase of two texts -/

/-- What stands in PascalCase between words and the words in front of them. -/
def joint (front rest : List Char) : List Char :=
  if front ≠ [] ∧ rest.head?.any Char.isDigit then ['_'] else []

/-- A word does not vanish when it is capitalized. -/
theorem capitalize_ne_nil {word : List Char} (h : word ≠ []) : capitalize word ≠ [] := by
  cases word with
  | nil => exact absurd rfl h
  | cons c rest => simp [capitalize]

/-- A word is capitalized into one that begins with a digit if it begins with one. -/
theorem head?_capitalize_any_isDigit (word : List Char) :
    (capitalize word).head?.any Char.isDigit = word.head?.any Char.isDigit := by
  cases word <;> simp [capitalize]

/-- Later words are joined to the words in front of them where these are any. -/
theorem pascalOfWords_append {ws vs : List (List Char)} (hws : ∀ w ∈ ws, IsWord w)
    (hvs : ∀ v ∈ vs, IsWord v) :
    pascalOfWords (ws ++ vs) =
      pascalOfWords ws ++ joint (pascalOfWords ws) (pascalOfWords vs) ++ pascalOfWords vs := by
  cases ws with
  | nil => simp [pascalOfWords, joint]
  | cons word later =>
    cases vs with
    | nil => simp [pascalOfWords, joint]
    | cons next others =>
      have hword := capitalize_ne_nil (hws word List.mem_cons_self).ne_nil
      have hnext := capitalize_ne_nil (hvs next List.mem_cons_self).ne_nil
      have hfront : pascalOfWords (word :: later) ≠ [] := by simp [pascalOfWords, hword]
      have hhead : (pascalOfWords (next :: others)).head?.any Char.isDigit =
          next.head?.any Char.isDigit := by
        rw [pascalOfWords, List.head?_append_of_ne_nil _ hnext, head?_capitalize_any_isDigit]
      have hjoined : joined next = joint (pascalOfWords (word :: later))
        (pascalOfWords (next :: others)) ++
          capitalize next := by
        cases hdigit : next.head?.any Char.isDigit <;> simp [joined, joint, hfront, hhead, hdigit]
      rw [List.cons_append, pascalOfWords, List.flatMap_append, List.flatMap_cons, hjoined]
      simp [pascalOfWords]

/--
PascalCase of two texts with a separator between them is that of both, with an underscore between
them if the first has a letter or digit at all and the second begins with a digit.  So it makes no
difference which separators there are and how many of them stand side by side or at the ends:
PascalCase depends on the runs of letters and digits only.
-/
theorem pascal_of_separated_texts (text rest : String) :
    (∀ separator : Char, separator.isAlphanum = false →
      pascal (text ++ String.singleton separator ++ rest) =
        pascal text ++
          (if pascal text ≠ "" ∧ (pascal rest).toList.head?.any Char.isDigit then "_" else "") ++
          pascal rest) ∧
    (∀ before after, IsSeparation before → IsSeparation after →
      pascal (before ++ text ++ after) = pascal text) ∧
    (∀ between other, between ≠ "" → other ≠ "" → IsSeparation between → IsSeparation other →
      pascal (text ++ between ++ rest) = pascal (text ++ other ++ rest)) ∧
    (∀ other : String, runs text.toList = runs other.toList → pascal text = pascal other) := by
  refine ⟨?_, ?_, ?_, fun other h => pascal_eq_of_runs_eq h⟩
  · intro separator hseparator
    have hjoint : (if pascal text ≠ "" ∧ (pascal rest).toList.head?.any Char.isDigit then "_"
        else "").toList = joint (pascal text).toList (pascal rest).toList := by
      simp only [joint, ne_eq, String.toList_eq_nil_iff]
      split <;> rfl
    rw [← String.toList_inj, String.toList_append, String.toList_append, hjoint, toList_pascal,
      toList_pascal, toList_pascal]
    simp only [String.toList_append, String.toList_singleton, List.append_assoc,
      List.singleton_append]
    rw [words_append_separator hseparator,
      pascalOfWords_append isWord_of_mem_words isWord_of_mem_words, List.append_assoc]
  · intro before after hbefore hafter
    apply pascal_eq_of_runs_eq
    rw [String.toList_append, String.toList_append, runs_between_separators hbefore hafter]
  · intro between other hne hneOther hbetween hother
    apply pascal_eq_of_runs_eq
    simp only [String.toList_append]
    rw [runs_append_separators (by simpa using hne) hbetween,
      runs_append_separators (by simpa using hneOther) hother]

/-- One separator, several of them, some that are no ASCII characters and some at the ends. -/
theorem pascal_item_separated_2 :
    ('-'.isAlphanum = false ∧
      pascal ("item" ++ String.singleton '-' ++ "2") = "Item" ++ "_" ++ "2") ∧
    (IsSeparation "__" ∧ IsSeparation ".-" ∧ pascal ("__" ++ "item" ++ ".-") = "Item") ∧
    ("é" ≠ "" ∧ "--" ≠ "" ∧ IsSeparation "é" ∧ IsSeparation "--" ∧
      pascal ("item" ++ "é" ++ "2") = pascal ("item" ++ "--" ++ "2")) ∧
    runs "item".toList = runs "-item".toList ∧ pascal "item" = pascal "-item" := by
  obtain ⟨hjoined, hends, hbetween, hruns⟩ := pascal_of_separated_texts "item" "2"
  have hitem : pascal "item" = "Item" := by cbv
  have htwo : pascal "2" = "2" := by cbv
  have hunderscores : IsSeparation "__" := by simp [IsSeparation]
  have hdots : IsSeparation ".-" := by simp [IsSeparation]
  have haccented : IsSeparation "é" := by simp [IsSeparation]
  have hdashes : IsSeparation "--" := by simp [IsSeparation]
  have hsame : runs "item".toList = runs "-item".toList := by decide
  refine ⟨⟨by decide, ?_⟩, ⟨hunderscores, hdots, ?_⟩,
    ⟨by decide, by decide, haccented, hdashes, ?_⟩, hsame, hruns "-item" hsame⟩
  · rw [hjoined '-' (by decide), hitem, htwo]
    decide
  · rw [hends "__" ".-" hunderscores hdots, hitem]
  · exact hbetween "é" "--" (by decide) (by decide) haccented hdashes

end QueryHooks.Casing
