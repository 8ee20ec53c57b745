import QueryHooks.Proofs.Casing.Words

/-!
# Separators of words

A separator ends the word in front of it and does nothing else.  So the words of two texts with a
separator between them are the words of both, and words without capitals that are put together with
separators are read as just these words.

Main results:

- Theorem `words_append_separator`: the words in front of a separator and those behind it.
- Definition `IsSmallWord`: a word of lower-case letters and digits.
- Theorem `words_intercalate`: small words are read back from the text in which separators join
  them.
-/

namespace QueryHooks.Casing

/-! ## Texts around a separator -/

/-- Putting a word in front of others leaves what stands behind these alone. -/
theorem consWord_append (word : List Char) (later others : List (List Char)) :
    consWord word (later ++ others) = consWord word later ++ others := by
  cases word <;> simp [consWord]

/-- What stands behind a separator decides nothing about the words in front of it. -/
theorem startsWord_append_separator {separator : Char} (hseparator : separator.isAlphanum = false)
    (before c : Char) (text rest : List Char) :
    startsWord before c (text ++ separator :: rest).head? = startsWord before c text.head? := by
  cases text with
  | nil =>
    -- Only a lower-case letter behind a capital makes a difference, and a separator is none.
    have hlower : separator.isLower = false := by
      simp only [Char.isAlphanum, Char.isAlpha, Bool.or_eq_false_iff] at hseparator
      exact hseparator.1.2
    simp [startsWord, hlower]
  | cons d text => rfl

/-- A text in front of a separator is split as if it ended there. -/
theorem splitAfter_append_separator {separator : Char} (hseparator : separator.isAlphanum = false)
    (before? : Option Char) (text rest : List Char) :
    splitAfter before? (text ++ separator :: rest) =
      ((splitAfter before? text).1, (splitAfter before? text).2 ++ words rest) := by
  induction text generalizing before? with
  | nil =>
    rw [List.nil_append, splitAfter_separator hseparator, splitAfter_nil]
    rfl
  | cons c text ih =>
    rw [List.cons_append]
    cases hc : c.isAlphanum with
    | false => rw [splitAfter_separator hc, splitAfter_separator hc, ih, consWord_append]
    | true =>
      have hsame : before?.any (startsWord · c (text ++ separator :: rest).head?) =
          before?.any (startsWord · c text.head?) := by
        simp only [startsWord_append_separator hseparator]
      cases hstart : before?.any (startsWord · c text.head?) with
      | true =>
        rw [splitAfter_of_startsWord hc hstart, splitAfter_of_startsWord hc (hsame.trans hstart),
          ih]
        rfl
      | false =>
        rw [splitAfter_of_not_startsWord hc hstart,
          splitAfter_of_not_startsWord hc (hsame.trans hstart), ih]

/-- The words around a separator are those in front of it and those behind it. -/
theorem words_append_separator {separator : Char} (hseparator : separator.isAlphanum = false)
    (text rest : List Char) :
    words (text ++ separator :: rest) = words text ++ words rest := by
  rw [words_eq_consWord, splitAfter_append_separator hseparator, consWord_append,
    words_eq_consWord text]

/-! ## Small words -/

/-- A word of lower-case letters and digits. -/
structure IsSmallWord (word : List Char) : Prop where
  ne_nil : word ≠ []
  isSmall : ∀ c ∈ word, c.isLower = true ∨ c.isDigit = true

/-- Lower-case letters and digits go on with the word that is open. -/
theorem splitAfter_of_isSmall (before? : Option Char) {chars : List Char}
    (h : ∀ c ∈ chars, c.isLower = true ∨ c.isDigit = true) :
    splitAfter before? chars = (chars, []) := by
  induction chars generalizing before? with
  | nil => simp
  | cons c chars ih =>
    obtain ⟨hc, hchars⟩ := List.forall_mem_cons.1 h
    have halphanum : c.isAlphanum = true := by
      rcases hc with hc | hc <;> simp [Char.isAlphanum, Char.isAlpha, hc]
    have hupper : c.isUpper = false := by
      rcases hc with hc | hc
      · exact Bool.eq_false_iff.2 (Char.not_isUpper_of_isLower hc)
      · exact (Text.case_of_isDigit hc).1
    have hstart : before?.any (startsWord · c chars.head?) = false := by
      cases before? <;> simp [startsWord, hupper]
    rw [splitAfter_of_not_startsWord halphanum hstart, ih _ hchars]

/-- A small word is the only word of itself. -/
theorem IsSmallWord.words_eq {word : List Char} (h : IsSmallWord word) : words word = [word] := by
  rw [words_eq_consWord, splitAfter_of_isSmall none h.isSmall]
  simp [consWord, h.ne_nil]

/-- Small words are read back from the text in which separators join them. -/
theorem words_intercalate {separator : Char} (hseparator : separator.isAlphanum = false)
    {ws : List (List Char)} (h : ∀ w ∈ ws, IsSmallWord w) :
    words ([separator].intercalate ws) = ws := by
  induction ws with
  | nil => rfl
  | cons word later ih =>
    obtain ⟨hword, hlater⟩ := List.forall_mem_cons.1 h
    cases later with
    | nil => simpa using hword.words_eq
    | cons next later =>
      rw [List.intercalate_cons_cons, List.append_assoc, List.singleton_append,
        words_append_separator hseparator, hword.words_eq, ih hlater, List.singleton_append]

end QueryHooks.Casing
