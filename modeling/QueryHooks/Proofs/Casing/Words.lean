import QueryHooks.Casing
import QueryHooks.Proofs.Text.Letters

/-!
# The words of a text

Every word that a text is split into is made of letters and digits, and no word is empty.

Main results:

- Definition `IsWord`: some letters and digits, at least one.
- Theorem `isWord_of_mem_words`: the words of any text are words in this sense.
- Theorem `flatten_words`: the words of a text are made of all its letters and digits, in their
  order.
- Theorem `isAlphanum_or_underscore_of_mem_pascal`: there are no other characters in PascalCase.
- Theorem `head?_pascal`: PascalCase begins with the first letter or digit of the text.
-/

namespace QueryHooks.Casing

/-- Some letters and digits, of which there is at least one. -/
structure IsWord (word : List Char) : Prop where
  ne_nil : word ≠ []
  isAlphanum : ∀ c ∈ word, c.isAlphanum = true

/-- A word with one character more in front of it. -/
theorem isWord_cons {c : Char} {rest : List Char} (hc : c.isAlphanum = true)
    (hrest : ∀ d ∈ rest, d.isAlphanum = true) : IsWord (c :: rest) where
  ne_nil := by simp
  isAlphanum := by
    intro d hd
    rcases List.mem_cons.1 hd with rfl | hd
    · exact hc
    · exact hrest d hd

/-- In front of a text no word is open. -/
theorem words_eq_consWord (text : List Char) :
    words text = consWord (splitAfter none text).1 (splitAfter none text).2 :=
  rfl

/-- A beginning of letters and digits is put in front as a word, or it is empty. -/
theorem isWord_of_mem_consWord {word : List Char} {later : List (List Char)}
    (hword : ∀ c ∈ word, c.isAlphanum = true) (hlater : ∀ w ∈ later, IsWord w) :
    ∀ w ∈ consWord word later, IsWord w := by
  intro w hw
  unfold consWord at hw
  split at hw
  · exact hlater w hw
  · rename_i hempty
    rcases List.mem_cons.1 hw with rfl | hw
    · exact ⟨by simpa using hempty, hword⟩
    · exact hlater w hw

/-- Behind any character, a text is split into the rest of a word and into words. -/
theorem isWord_of_splitAfter (before? : Option Char) (text : List Char) :
    (∀ c ∈ (splitAfter before? text).1, c.isAlphanum = true) ∧
      ∀ w ∈ (splitAfter before? text).2, IsWord w := by
  induction text generalizing before? with
  | nil => simp
  | cons c rest ih =>
    cases hc : c.isAlphanum with
    | false =>
      obtain ⟨hword, hlater⟩ := ih none
      rw [splitAfter_separator hc]
      exact ⟨by simp, isWord_of_mem_consWord hword hlater⟩
    | true =>
      obtain ⟨hword, hlater⟩ := ih (some c)
      have hopen : IsWord (c :: (splitAfter (some c) rest).1) := isWord_cons hc hword
      cases hstart : before?.any (startsWord · c rest.head?) with
      | true =>
        rw [splitAfter_of_startsWord hc hstart]
        refine ⟨by simp, ?_⟩
        intro w hw
        rcases List.mem_cons.1 hw with rfl | hw
        · exact hopen
        · exact hlater w hw
      | false =>
        rw [splitAfter_of_not_startsWord hc hstart]
        exact ⟨hopen.isAlphanum, hlater⟩

/-- What a text is split into are words. -/
theorem isWord_of_mem_words {text : List Char} : ∀ w ∈ words text, IsWord w := by
  obtain ⟨hword, hlater⟩ := isWord_of_splitAfter none text
  exact isWord_of_mem_consWord hword hlater

/-! ## Letters and digits of the words -/

/-- A word in front of others is part of what they are made of, also if it is empty. -/
theorem flatten_consWord (word : List Char) (later : List (List Char)) :
    (consWord word later).flatten = word ++ later.flatten := by
  cases word <;> simp [consWord]

/-- Behind any character, the words of a text lose none of its letters and digits. -/
theorem flatten_splitAfter (before? : Option Char) (text : List Char) :
    (splitAfter before? text).1 ++ (splitAfter before? text).2.flatten =
      text.filter Char.isAlphanum := by
  induction text generalizing before? with
  | nil => simp
  | cons c rest ih =>
    cases hc : c.isAlphanum with
    | false =>
      rw [splitAfter_separator hc, List.filter_cons_of_neg (by simp [hc]), ← ih none,
        List.nil_append, flatten_consWord]
    | true =>
      rw [List.filter_cons_of_pos hc, ← ih (some c)]
      cases hstart : before?.any (startsWord · c rest.head?) with
      | true =>
        rw [splitAfter_of_startsWord hc hstart, List.nil_append, List.flatten_cons,
          List.cons_append]
      | false => rw [splitAfter_of_not_startsWord hc hstart, List.cons_append]

/-- The words of a text are made of all its letters and digits. -/
theorem flatten_words (text : List Char) : (words text).flatten = text.filter Char.isAlphanum := by
  rw [words_eq_consWord, flatten_consWord, flatten_splitAfter]

/-! ## Characters of PascalCase -/

/-- A capitalized word has letters and digits only. -/
theorem isAlphanum_of_mem_capitalize {word : List Char} (h : ∀ c ∈ word, c.isAlphanum = true) :
    ∀ c ∈ capitalize word, c.isAlphanum = true := by
  cases word with
  | nil => simp [capitalize]
  | cons d rest =>
    obtain ⟨hd, hrest⟩ := List.forall_mem_cons.1 h
    rw [capitalize, List.forall_mem_cons, List.forall_mem_map]
    refine ⟨by rwa [Text.isAlphanum_toUpper], ?_⟩
    intro c hc
    rw [Text.isAlphanum_toLower]
    exact hrest c hc

/-- A text in PascalCase has letters, digits and underscores only. -/
theorem isAlphanum_or_underscore_of_mem_pascal {text : String} {c : Char}
    (h : c ∈ (pascal text).toList) : c.isAlphanum = true ∨ c = '_' := by
  rw [toList_pascal] at h
  have hwords : ∀ word ∈ words text.toList, ∀ c ∈ capitalize word, c.isAlphanum = true :=
    fun word hword => isAlphanum_of_mem_capitalize (isWord_of_mem_words word hword).isAlphanum
  cases hlist : words text.toList with
  | nil => simp [hlist, pascalOfWords] at h
  | cons word later =>
    rw [hlist] at hwords
    rw [hlist, pascalOfWords, List.mem_append, List.mem_flatMap] at h
    rcases h with hfirst | ⟨next, hnext, hc⟩
    · exact .inl (hwords word List.mem_cons_self c hfirst)
    · have hcapitals := hwords next (List.mem_cons_of_mem _ hnext)
      rw [joined] at hc
      split at hc
      · rcases List.mem_cons.1 hc with rfl | hc
        · exact .inr rfl
        · exact .inl (hcapitals c hc)
      · exact .inl (hcapitals c hc)

/-- Words in PascalCase begin with the first character of the first word. -/
theorem head?_pascalOfWords {ws : List (List Char)} (h : ∀ w ∈ ws, IsWord w) :
    (pascalOfWords ws).head? = ws.flatten.head?.map Char.toUpper := by
  cases ws with
  | nil => rfl
  | cons word later =>
    cases word with
    | nil => exact absurd rfl (h [] List.mem_cons_self).ne_nil
    | cons c rest => rfl

/-- PascalCase begins with the first letter or digit of the text. -/
theorem head?_pascal (text : String) :
    (pascal text).toList.head? = (text.toList.find? Char.isAlphanum).map Char.toUpper := by
  rw [toList_pascal, head?_pascalOfWords isWord_of_mem_words, flatten_words, List.head?_filter]

end QueryHooks.Casing
