import QueryHooks.Proofs.Casing.Reading
import QueryHooks.Proofs.Casing.Separators

/-!
# Texts with the same PascalCase

PascalCase forgets the case of letters and how the words of a text were separated, and nothing else.
The underscore in front of a later word that begins with a digit is what keeps `item_2` apart from
`item2`.

Main results:

- Definition `SameUpToCase`: two words whose letters differ in case at most.
- Definition `IsSnakeCase`: small words joined by single underscores.
- Theorem `pascal_eq_iff`: two texts have the same PascalCase exactly if their words are the same up
  to case.
- Theorem `pascal_is_uniquely_decodable`: the words are read back from PascalCase, and texts in
  snake case have different PascalCase unless they are equal.
-/

namespace QueryHooks.Casing

/-- Two words are as long as each other, and their letters differ in case at most. -/
def SameUpToCase (word other : List Char) : Prop :=
  List.Forall₂ (fun c d => c.toLower = d.toLower) word other

/-- Words are the same up to case if they are so in lower case. -/
theorem sameUpToCase_iff {word other : List Char} :
    SameUpToCase word other ↔ lower word = lower other := by
  rw [SameUpToCase, lower, lower, ← List.forall₂_eq_eq_eq, List.forall₂_map_left_iff,
    List.forall₂_map_right_iff]

/-- Lists of words are the same in lower case exactly if their words are the same up to case. -/
theorem map_lower_eq_iff {ws vs : List (List Char)} :
    ws.map lower = vs.map lower ↔ List.Forall₂ SameUpToCase ws vs := by
  have hsame : SameUpToCase = fun word other => lower word = lower other := by
    funext word other
    exact propext sameUpToCase_iff
  rw [hsame, ← List.forall₂_eq_eq_eq, List.forall₂_map_left_iff, List.forall₂_map_right_iff]

/-- Two texts have the same PascalCase exactly if their words are the same up to case. -/
theorem pascal_eq_iff {text other : String} :
    pascal text = pascal other ↔
      List.Forall₂ SameUpToCase (words text.toList) (words other.toList) := by
  rw [← String.toList_inj, toList_pascal, toList_pascal,
    pascalOfWords_eq_iff isWord_of_mem_words isWord_of_mem_words, map_lower_eq_iff]

/-! ## Snake case -/

/-- Words of lower-case letters and digits, joined by single underscores. -/
def IsSnakeCase (text : String) : Prop :=
  ∃ ws, (∀ w ∈ ws, IsSmallWord w) ∧ text.toList = ['_'].intercalate ws

/-- A small word has no capital to be made a lower-case letter. -/
theorem IsSmallWord.lower_eq {word : List Char} (h : IsSmallWord word) : lower word = word := by
  have hsame : ∀ c ∈ word, c.toLower = id c := by
    intro c hc
    apply Char.toLower_eq_of_not_isUpper
    rcases h.isSmall c hc with hlower | hdigit
    · exact Char.not_isUpper_of_isLower hlower
    · simp [(Text.case_of_isDigit hdigit).1]
  rw [lower, List.map_congr_left hsame, List.map_id]

/-- A text in snake case is its words, which are in lower case, joined by underscores. -/
theorem IsSnakeCase.toList_eq {text : String} (h : IsSnakeCase text) :
    text.toList = ['_'].intercalate ((words text.toList).map lower) := by
  obtain ⟨ws, hws, htext⟩ := h
  have hsame : ∀ word ∈ ws, lower word = id word := fun word hword => (hws word hword).lower_eq
  rw [htext, words_intercalate (by decide) hws, List.map_congr_left hsame, List.map_id]

/--
Two texts have the same PascalCase exactly if they have as many words as each other and these are
the same up to case, one by one.  The words, in lower case, can be read back from PascalCase.  So
texts in which small words are joined by single underscores have the same PascalCase only if they
are equal.
-/
theorem pascal_is_uniquely_decodable (text other : String) :
    (pascal text = pascal other ↔
      List.Forall₂ SameUpToCase (words text.toList) (words other.toList)) ∧
    readPascal (pascal text).toList = (words text.toList).map lower ∧
    (IsSnakeCase text → IsSnakeCase other → pascal text = pascal other → text = other) := by
  refine ⟨pascal_eq_iff, ?_, ?_⟩
  · rw [toList_pascal, readPascal_pascalOfWords isWord_of_mem_words]
  · intro htext hother h
    have hwords := map_lower_eq_iff.2 (pascal_eq_iff.1 h)
    rw [← String.toList_inj, htext.toList_eq, hother.toList_eq, hwords]

/-- The digit of `item_2` is a word of its own, and that of `item2` is not. -/
theorem pascal_item_2_ne_pascal_item2 :
    IsSnakeCase "item_2" ∧ IsSnakeCase "item2" ∧ pascal "item_2" ≠ pascal "item2" := by
  have hitem : IsSmallWord ['i', 't', 'e', 'm'] := ⟨by simp, by simp⟩
  have htwo : IsSmallWord ['2'] := ⟨by simp, by simp⟩
  have hboth : IsSmallWord ['i', 't', 'e', 'm', '2'] := ⟨by simp, by simp⟩
  have hitem_2 : IsSnakeCase "item_2" :=
    ⟨[['i', 't', 'e', 'm'], ['2']], by simp [hitem, htwo], by decide⟩
  have hitem2 : IsSnakeCase "item2" := ⟨[['i', 't', 'e', 'm', '2']], by simp [hboth], by decide⟩
  refine ⟨hitem_2, hitem2, ?_⟩
  intro h
  have hequal := (pascal_is_uniquely_decodable "item_2" "item2").2.2 hitem_2 hitem2 h
  exact absurd hequal (by decide)

end QueryHooks.Casing
