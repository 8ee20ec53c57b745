import QueryHooks.Proofs.Casing.Equality
import QueryHooks.Proofs.Text.Languages

/-!
# The texts in PascalCase

Which texts are the PascalCase of some text: a first word that begins with a capital or a digit, and
later words that begin with a capital or with an underscore and a digit.  All other characters of a
word are lower-case letters and digits.  Without its underscores and in lower case, PascalCase is
what the text has of letters and digits.

Main results:

- Definition `pascalTexts`: the language of the texts in PascalCase.
- Theorem `exists_pascal_eq_iff`: the texts of this language are the PascalCase of some text, and
  there are no others.
- Theorem `lower_filter_pascal`: PascalCase has the letters and digits of the text, in order.
-/

namespace QueryHooks.Casing

open scoped Computability
open Text (mem_kstar_oneOf oneOf)

/-! ## The language -/

/-- Whether a character is a lower-case letter or a digit. -/
def isSmall (c : Char) : Bool :=
  c.isLower || c.isDigit

/-- Words that begin with a character of a class and go on with lower-case letters and digits. -/
def wordsFrom (holds : Char → Bool) : Language Char :=
  oneOf holds * (oneOf isSmall)∗

/-- First words: a capital or a digit comes first. -/
def firstWords : Language Char :=
  wordsFrom Char.isUpper + wordsFrom Char.isDigit

/-- Later words: a capital comes first, or an underscore and a digit. -/
def laterWords : Language Char :=
  wordsFrom Char.isUpper + {['_']} * wordsFrom Char.isDigit

/-- The texts in PascalCase. -/
def pascalTexts : Language Char :=
  1 + firstWords * laterWords∗

/-- The words of small letters and digits that begin with a certain character. -/
theorem mem_wordsFrom {holds : Char → Bool} {text : List Char} :
    text ∈ wordsFrom holds ↔
      ∃ c rest, text = c :: rest ∧ holds c = true ∧ ∀ d ∈ rest, isSmall d = true := by
  rw [wordsFrom, Language.mem_mul]
  constructor
  · rintro ⟨_, ⟨c, hc, rfl⟩, rest, hrest, rfl⟩
    exact ⟨c, rest, rfl, hc, mem_kstar_oneOf.1 hrest⟩
  · rintro ⟨c, rest, rfl, hc, hrest⟩
    exact ⟨[c], ⟨c, hc, rfl⟩, rest, mem_kstar_oneOf.2 hrest, rfl⟩

/-! ## Small words in PascalCase -/

/-- A small word is a text of lower-case letters and digits that is not empty. -/
theorem isSmallWord_iff {word : List Char} :
    IsSmallWord word ↔ word ≠ [] ∧ ∀ c ∈ word, isSmall c = true := by
  simp only [isSmall, Bool.or_eq_true]
  exact ⟨fun h => ⟨h.ne_nil, h.isSmall⟩, fun h => ⟨h.1, h.2⟩⟩

/-- A letter or digit in lower case is a lower-case letter or a digit. -/
theorem isSmall_toLower {c : Char} (h : c.isAlphanum = true) : isSmall c.toLower = true := by
  rw [Char.isAlphanum, Bool.or_eq_true] at h
  rcases h with halpha | hdigit
  · simp [isSmall, halpha]
  · simp [isSmall, hdigit]

/-- A word in lower case is a small word. -/
theorem IsWord.isSmallWord_lower {word : List Char} (h : IsWord word) :
    IsSmallWord (lower word) := by
  rw [isSmallWord_iff]
  refine ⟨by simpa [lower] using h.ne_nil, ?_⟩
  rw [lower, List.forall_mem_map]
  exact fun c hc => isSmall_toLower (h.isAlphanum c hc)

theorem isAlphanum_of_isSmall {c : Char} (h : isSmall c = true) : c.isAlphanum = true := by
  rw [isSmall, Bool.or_eq_true] at h
  rcases h with h | h <;> simp [Char.isAlphanum, Char.isAlpha, h]

/-- A small word is a word, since there is no capital to cut it at. -/
theorem IsSmallWord.isWord {word : List Char} (h : IsSmallWord word) : IsWord word where
  ne_nil := h.ne_nil
  isAlphanum := fun c hc => isAlphanum_of_isSmall ((isSmallWord_iff.1 h).2 c hc)

/-- A word is written as its first character in upper case with small characters behind it. -/
theorem capitalize_mem_wordsFrom {holds : Char → Bool} {c : Char} {rest : List Char}
    (hc : holds c.toUpper = true) (hrest : ∀ d ∈ rest, d.isAlphanum = true) :
    capitalize (c :: rest) ∈ wordsFrom holds := by
  refine mem_wordsFrom.2 ⟨c.toUpper, rest.map Char.toLower, rfl, hc, ?_⟩
  rw [List.forall_mem_map]
  exact fun d hd => isSmall_toLower (hrest d hd)

/-- What has a capital or a digit in front of small characters is written from its lower case. -/
theorem capitalize_lower_of_isSmall {c : Char} {rest : List Char}
    (hc : c.isUpper = true ∨ c.isDigit = true) (hrest : ∀ d ∈ rest, isSmall d = true) :
    capitalize (lower (c :: rest)) = c :: rest := by
  have hupper : c.toUpper = c := by
    apply Char.toUpper_eq_of_not_isLower
    rcases hc with h | h
    · exact Char.not_isLower_of_isUpper h
    · simp [(Text.case_of_isDigit h).2]
  have hlower : lower rest = rest := by
    cases rest with
    | nil => rfl
    | cons d later => exact (isSmallWord_iff.2 ⟨by simp, hrest⟩).lower_eq
  rw [lower] at hlower
  rw [capitalize_lower, capitalize, hupper, hlower]

/-- A capital or a digit in front of small characters is a word, and in lower case a small one. -/
theorem isSmallWord_lower_cons {c : Char} {rest : List Char}
    (hc : c.isUpper = true ∨ c.isDigit = true)
    (hrest : ∀ d ∈ rest, isSmall d = true) : IsSmallWord (lower (c :: rest)) := by
  refine (isWord_cons ?_ fun d hd => isAlphanum_of_isSmall (hrest d hd)).isSmallWord_lower
  rcases hc with h | h <;> simp [Char.isAlphanum, Char.isAlpha, h]

/-- First words are the small words, capitalized. -/
theorem mem_firstWords_iff {text : List Char} :
    text ∈ firstWords ↔ ∃ word, IsSmallWord word ∧ capitalize word = text := by
  rw [firstWords, Language.mem_add, mem_wordsFrom, mem_wordsFrom]
  constructor
  · rintro (⟨c, rest, rfl, hc, hrest⟩ | ⟨c, rest, rfl, hc, hrest⟩)
    · exact ⟨_, isSmallWord_lower_cons (.inl hc) hrest, capitalize_lower_of_isSmall (.inl hc) hrest⟩
    · exact ⟨_, isSmallWord_lower_cons (.inr hc) hrest, capitalize_lower_of_isSmall (.inr hc) hrest⟩
  · rintro ⟨word, hword, rfl⟩
    cases word with
    | nil => exact absurd rfl hword.ne_nil
    | cons c rest =>
      obtain ⟨hc, hrest⟩ := List.forall_mem_cons.1 hword.isWord.isAlphanum
      rw [Char.isAlphanum, Bool.or_eq_true] at hc
      rcases hc with hc | hc
      · exact .inl (mem_wordsFrom.1 (capitalize_mem_wordsFrom (by simp [hc]) hrest))
      · exact .inr (mem_wordsFrom.1 (capitalize_mem_wordsFrom (by simp [hc]) hrest))

/-- Later words are the small words, joined to the word in front of them. -/
theorem mem_laterWords_iff {text : List Char} :
    text ∈ laterWords ↔ ∃ word, IsSmallWord word ∧ joined word = text := by
  rw [laterWords, Language.mem_add, Language.mem_mul]
  constructor
  · rintro (hupper | ⟨_, rfl, _, hdigit, rfl⟩)
    · obtain ⟨c, rest, rfl, hc, hrest⟩ := mem_wordsFrom.1 hupper
      have hdigit : c.isDigit = false :=
        Text.isDigit_eq_false_of_isAlpha (Text.isAlpha_iff.2 (.inl hc))
      refine ⟨_, isSmallWord_lower_cons (.inl hc) hrest, ?_⟩
      rw [joined_lower, joined, List.head?_cons, Option.any_some, hdigit, ← capitalize_lower,
        capitalize_lower_of_isSmall (.inl hc) hrest]
      rfl
    · obtain ⟨c, rest, rfl, hc, hrest⟩ := mem_wordsFrom.1 hdigit
      refine ⟨_, isSmallWord_lower_cons (.inr hc) hrest, ?_⟩
      rw [joined_lower, joined, List.head?_cons, Option.any_some, hc, ← capitalize_lower,
        capitalize_lower_of_isSmall (.inr hc) hrest]
      rfl
  · rintro ⟨word, hword, rfl⟩
    cases word with
    | nil => exact absurd rfl hword.ne_nil
    | cons c rest =>
      obtain ⟨hc, hrest⟩ := List.forall_mem_cons.1 hword.isWord.isAlphanum
      rw [joined, List.head?_cons, Option.any_some]
      cases hdigit : c.isDigit with
      | true => exact .inr ⟨['_'], rfl, _, capitalize_mem_wordsFrom (by simp [hdigit]) hrest, rfl⟩
      | false =>
        rw [Char.isAlphanum, hdigit, Bool.or_false] at hc
        exact .inl (capitalize_mem_wordsFrom (by simp [hc]) hrest)

/-- Texts that are later words are joined from small words, one by one. -/
theorem exists_map_joined {parts : List (List Char)} (h : ∀ part ∈ parts, part ∈ laterWords) :
    ∃ later : List (List Char), (∀ w ∈ later, IsSmallWord w) ∧ later.map joined = parts := by
  induction parts with
  | nil => exact ⟨[], by simp, rfl⟩
  | cons part parts ih =>
    obtain ⟨hpart, hparts⟩ := List.forall_mem_cons.1 h
    obtain ⟨word, hword, rfl⟩ := mem_laterWords_iff.1 hpart
    obtain ⟨later, hlater, rfl⟩ := ih hparts
    exact ⟨word :: later, List.forall_mem_cons.2 ⟨hword, hlater⟩, rfl⟩

/-! ## The image -/

/-- The texts in PascalCase are small words written in PascalCase. -/
theorem mem_pascalTexts_iff {text : List Char} :
    text ∈ pascalTexts ↔ ∃ ws, (∀ w ∈ ws, IsSmallWord w) ∧ pascalOfWords ws = text := by
  rw [pascalTexts, Language.mem_add, Language.mem_one, Language.mem_mul]
  constructor
  · rintro (rfl | ⟨first, hfirst, _, ⟨parts, rfl, hparts⟩, rfl⟩)
    · exact ⟨[], by simp, rfl⟩
    · obtain ⟨word, hword, rfl⟩ := mem_firstWords_iff.1 hfirst
      obtain ⟨later, hlater, rfl⟩ := exists_map_joined hparts
      exact ⟨word :: later, List.forall_mem_cons.2 ⟨hword, hlater⟩, rfl⟩
  · rintro ⟨ws, hws, rfl⟩
    cases ws with
    | nil => exact .inl rfl
    | cons word later =>
      obtain ⟨hword, hlater⟩ := List.forall_mem_cons.1 hws
      refine .inr ⟨_, mem_firstWords_iff.2 ⟨word, hword, rfl⟩, _, ⟨later.map joined, ?_, ?_⟩, rfl⟩
      · rw [List.flatMap_def]
      · rw [List.forall_mem_map]
        exact fun w hw => mem_laterWords_iff.2 ⟨w, hlater w hw, rfl⟩

/-- The texts in PascalCase are the PascalCase of some text, and there are no others. -/
theorem exists_pascal_eq_iff {text : String} :
    (∃ source, pascal source = text) ↔ text.toList ∈ pascalTexts := by
  rw [mem_pascalTexts_iff]
  constructor
  · rintro ⟨source, rfl⟩
    refine ⟨(words source.toList).map lower, ?_, ?_⟩
    · rw [List.forall_mem_map]
      exact fun word hword => (isWord_of_mem_words word hword).isSmallWord_lower
    · rw [pascalOfWords_map_lower, toList_pascal]
  · rintro ⟨ws, hws, htext⟩
    -- Small words can be read back from the text in which underscores join them.
    refine ⟨String.ofList (['_'].intercalate ws), ?_⟩
    rw [← String.toList_inj, toList_pascal, String.toList_ofList, words_intercalate (by decide) hws,
      htext]

/-! ## Letters and digits -/

/-- A capital at the front makes no difference in lower case. -/
theorem lower_capitalize (word : List Char) : lower (capitalize word) = lower word := by
  cases word <;> simp [lower, capitalize]

/-- There is no underscore in a capitalized word. -/
theorem filter_capitalize {word : List Char} (h : IsWord word) :
    (capitalize word).filter (· != '_') = capitalize word := by
  rw [List.filter_eq_self]
  intro c hc
  simpa using ne_underscore_of_isAlphanum (isAlphanum_of_mem_capitalize h.isAlphanum c hc)

/-- An underscore in front of a word is all that joins it to another one. -/
theorem filter_joined {word : List Char} (h : IsWord word) :
    (joined word).filter (· != '_') = capitalize word := by
  rw [joined]
  split <;> simp [filter_capitalize h]

/-- Without underscores, words in PascalCase are the capitalized words side by side. -/
theorem filter_pascalOfWords {ws : List (List Char)} (h : ∀ w ∈ ws, IsWord w) :
    (pascalOfWords ws).filter (· != '_') = ws.flatMap capitalize := by
  cases ws with
  | nil => rfl
  | cons word later =>
    obtain ⟨hword, hlater⟩ := List.forall_mem_cons.1 h
    have hjoined : later.flatMap (fun w => (joined w).filter (· != '_')) =
        later.flatMap capitalize := by
      rw [List.flatMap_def, List.flatMap_def,
        List.map_congr_left fun w hw => filter_joined (hlater w hw)]
    rw [pascalOfWords, List.filter_append, filter_capitalize hword, List.filter_flatMap, hjoined,
      List.flatMap_cons]

/-- PascalCase has the letters and digits of the text, in order: none is lost, added or moved. -/
theorem lower_filter_pascal (text : String) :
    lower ((pascal text).toList.filter (· != '_')) =
      lower (text.toList.filter Char.isAlphanum) := by
  calc lower ((pascal text).toList.filter (· != '_'))
      = lower ((words text.toList).flatMap capitalize) := by
        rw [toList_pascal, filter_pascalOfWords isWord_of_mem_words]
    _ = (words text.toList).flatMap fun word => lower (capitalize word) := List.map_flatMap
    _ = (words text.toList).flatMap lower := by simp only [lower_capitalize]
    _ = lower (words text.toList).flatten := by rw [lower, List.map_flatten, List.flatMap_def]; rfl
    _ = lower (text.toList.filter Char.isAlphanum) := by rw [flatten_words]

end QueryHooks.Casing
