import QueryHooks.Proofs.Casing.Reading

/-!
# PascalCase of PascalCase

A text in PascalCase is itself split into words.  Where one-letter words stand side by side, their
capitals are read as an acronym, and all of its capitals but the first, and but the last one in
front of a lower-case letter, become lower-case letters.  Nothing else changes, and a second time
nothing changes at all.

Main results:

- Definition `Continues`: what can stand behind a letter or digit in PascalCase.
- Definition `recase`: a text with the capitals inside acronyms in lower case.
- Theorem `pascalOfWords_words_cons`: PascalCase of a text in PascalCase is the text with other
  case.
- Theorem `recase_eq_self_iff`: which texts stay as they are.
- Theorem `pascal_settles_after_two_rounds`: PascalCase of PascalCase is the same from then on.
-/

namespace QueryHooks.Casing

/-! ## The shape of PascalCase -/

/-- What can stand behind a letter or digit in PascalCase: behind an underscore there is a digit. -/
inductive Continues : List Char → Prop
  | nil : Continues []
  | alphanum {c : Char} {rest : List Char} (hc : c.isAlphanum = true) (hrest : Continues rest) :
    Continues (c :: rest)
  | underscore {c : Char} {rest : List Char} (hc : c.isDigit = true) (hrest : Continues rest) :
    Continues ('_' :: c :: rest)

/-- Letters and digits can stand in front of what can stand behind them. -/
theorem Continues.append {chars rest : List Char} (h : ∀ c ∈ chars, c.isAlphanum = true)
    (hrest : Continues rest) : Continues (chars ++ rest) := by
  induction chars with
  | nil => exact hrest
  | cons c chars ih =>
    obtain ⟨hc, hchars⟩ := List.forall_mem_cons.1 h
    exact .alphanum hc (ih hchars)

/-- Later words can stand behind a letter or digit. -/
theorem continues_flatMap_joined {ws : List (List Char)} (h : ∀ w ∈ ws, IsWord w) :
    Continues (ws.flatMap joined) := by
  induction ws with
  | nil => exact .nil
  | cons word later ih =>
    obtain ⟨hword, hlater⟩ := List.forall_mem_cons.1 h
    have hcapitals := isAlphanum_of_mem_capitalize hword.isAlphanum
    rw [List.flatMap_cons, joined]
    split
    · rename_i hdigit
      cases word with
      | nil => exact absurd rfl hword.ne_nil
      | cons c rest =>
        rw [capitalize, List.forall_mem_cons] at hcapitals
        exact .underscore (by simpa using hdigit) (.append hcapitals.2 (ih hlater))
    · exact .append hcapitals (ih hlater)

/-- A text in PascalCase is empty, or it begins with a capital or a digit. -/
theorem pascalOfWords_cases {ws : List (List Char)} (h : ∀ w ∈ ws, IsWord w) :
    pascalOfWords ws = [] ∨
      ∃ c rest, pascalOfWords ws = c :: rest ∧ c.isAlphanum = true ∧ c.toUpper = c ∧
        Continues rest := by
  cases ws with
  | nil => exact .inl rfl
  | cons word later =>
    obtain ⟨hword, hlater⟩ := List.forall_mem_cons.1 h
    have hcapitals := isAlphanum_of_mem_capitalize hword.isAlphanum
    cases word with
    | nil => exact absurd rfl hword.ne_nil
    | cons c rest =>
      rw [capitalize, List.forall_mem_cons] at hcapitals
      exact .inr ⟨_, _, rfl, hcapitals.1, by simp,
        .append hcapitals.2 (continues_flatMap_joined hlater)⟩

/-! ## Another case -/

/-- What follows `before` with the capitals in lower case that begin no word. -/
def recase (before : Char) : List Char → List Char
  | [] => []
  | c :: rest => (if startsWord before c rest.head? then c else c.toLower) :: recase c rest

/-- Only a capital can start a word within letters and digits. -/
theorem startsWord_of_not_isUpper {c : Char} (h : c.isUpper = false) (before : Char)
    (next? : Option Char) : startsWord before c next? = false := by
  simp [startsWord, h]

/-- A character that is no capital is kept. -/
theorem recase_cons_of_not_isUpper {c : Char} (h : c.isUpper = false) (before : Char)
    (rest : List Char) : recase before (c :: rest) = c :: recase c rest := by
  rw [recase, startsWord_of_not_isUpper h, if_neg (by simp),
    Char.toLower_eq_of_not_isUpper (by simp [h])]

/-- A digit behind an underscore stays as it is. -/
theorem recase_underscore {c : Char} (h : c.isDigit = true) (before : Char) (rest : List Char) :
    recase before ('_' :: c :: rest) = '_' :: c :: recase c rest := by
  rw [recase_cons_of_not_isUpper (by decide), recase_cons_of_not_isUpper (Text.case_of_isDigit h).1]

/--
What follows a letter or digit in PascalCase is split into words that are written with other case.
-/
theorem lower_append_flatMap_joined {text : List Char} (h : Continues text) (before : Char) :
    lower (splitAfter (some before) text).1 ++ (splitAfter (some before) text).2.flatMap joined =
      recase before text := by
  induction h generalizing before with
  | nil => rw [splitAfter_nil]; rfl
  | @alphanum c rest hc hrest ih =>
    cases hstart : startsWord before c rest.head? with
    | true =>
      have hupper : c.isUpper = true := by
        rw [startsWord, Bool.and_eq_true] at hstart
        exact hstart.1
      have hdigit : c.isDigit = false :=
        Text.isDigit_eq_false_of_isAlpha (Text.isAlpha_iff.2 (.inl hupper))
      have hkept : c.toUpper = c :=
        Char.toUpper_eq_of_not_isLower (Char.not_isLower_of_isUpper hupper)
      rw [splitAfter_of_startsWord hc (by simpa using hstart), recase, if_pos hstart, ← ih c]
      simp [joined, hdigit, capitalize, hkept, lower]
    | false =>
      rw [splitAfter_of_not_startsWord hc (by simpa using hstart), recase,
        if_neg (by simp [hstart]), ← ih c]
      simp [lower]
  | @underscore c rest hc hrest ih =>
    have halphanum : c.isAlphanum = true := by simp [Char.isAlphanum, hc]
    have hkept : c.toLower = c :=
      Char.toLower_eq_of_not_isUpper (by simp [(Text.case_of_isDigit hc).1])
    rw [splitAfter_separator (by decide), splitAfter_of_not_startsWord halphanum rfl,
      recase_underscore hc, ← ih c]
    simp [consWord, joined, hc, capitalize_of_isDigit hc, lower, hkept]

/-- PascalCase of a text in PascalCase is the text with other case. -/
theorem pascalOfWords_words_cons {c : Char} {rest : List Char} (hc : c.isAlphanum = true)
    (hupper : c.toUpper = c) (hrest : Continues rest) :
    pascalOfWords (words (c :: rest)) = c :: recase c rest := by
  rw [words_eq_consWord, splitAfter_of_not_startsWord hc rfl, ← lower_append_flatMap_joined hrest c]
  simp [consWord, pascalOfWords, capitalize, hupper, lower]

/-! ## Texts that stay as they are -/

/-- Every capital directly behind another capital has a lower-case letter directly behind it. -/
def IsSpread (text : List Char) : Prop :=
  ∀ front before c rest, text = front ++ before :: c :: rest → before.isUpper = true →
    c.isUpper = true → ∃ next ∈ rest.head?, next.isLower = true

theorem isSpread_singleton (c : Char) : IsSpread [c] := by
  intro front before d rest h
  have hlength := congrArg List.length h
  simp at hlength
  omega

/-- Capitals are spread if the first two characters do not break the rule and the rest keeps it. -/
theorem isSpread_cons_cons {before c : Char} {rest : List Char} :
    IsSpread (before :: c :: rest) ↔
      (before.isUpper = true → c.isUpper = true → ∃ next ∈ rest.head?, next.isLower = true) ∧
        IsSpread (c :: rest) := by
  constructor
  · intro h
    refine ⟨h [] before c rest rfl, ?_⟩
    intro front first second later htext
    exact h (before :: front) first second later (by rw [htext]; rfl)
  · rintro ⟨hfirst, hrest⟩ front first second later htext
    cases front with
    | nil =>
      obtain ⟨rfl, rfl, rfl⟩ : before = first ∧ c = second ∧ rest = later := by simpa using htext
      exact hfirst
    | cons d front => exact hrest front first second later (List.cons.inj htext).2

/-- Behind a capital, a word begins at a capital in front of a lower-case letter. -/
theorem startsWord_of_isUpper {before : Char} (hbefore : before.isUpper = true) (c : Char)
    (next? : Option Char) : startsWord before c next? = (c.isUpper && next?.any Char.isLower) := by
  have hlower : before.isLower = false := Bool.eq_false_iff.2 (Char.not_isLower_of_isUpper hbefore)
  have hdigit : before.isDigit = false :=
    Text.isDigit_eq_false_of_isAlpha (Text.isAlpha_iff.2 (.inl hbefore))
  simp [startsWord, hbefore, hlower, hdigit]

/--
Behind a letter or digit, a character keeps its case unless it is a capital inside an acronym.
-/
theorem recased_eq_self_iff {before : Char} (hbefore : before.isAlphanum = true) (c : Char)
    (next? : Option Char) :
    (if startsWord before c next? then c else c.toLower) = c ↔
      (before.isUpper = true → c.isUpper = true → ∃ next ∈ next?, next.isLower = true) := by
  cases hupper : c.isUpper with
  | false => simp [startsWord_of_not_isUpper hupper, Char.toLower_eq_of_not_isUpper, hupper]
  | true =>
    have hchanged : c.toLower ≠ c := by
      intro h
      rw [← h] at hupper
      simp at hupper
    cases hcapital : before.isUpper with
    | true => cases next? <;> simp [startsWord_of_isUpper hcapital, hupper, hchanged]
    | false =>
      have hstart : startsWord before c next? = true := by
        simp only [Char.isAlphanum, Char.isAlpha, hcapital, Bool.false_or] at hbefore
        rw [startsWord, hupper, hbefore]
        rfl
      simp [hstart]

/--
What follows a letter or digit in PascalCase keeps its case unless capitals stand inside an acronym.
-/
theorem recase_eq_self_iff {text : List Char} (h : Continues text) {before : Char}
    (hbefore : before.isAlphanum = true) :
    recase before text = text ↔ IsSpread (before :: text) := by
  induction h generalizing before with
  | nil => simp [recase, isSpread_singleton]
  | @alphanum c rest hc hrest ih =>
    rw [recase, List.cons.injEq, recased_eq_self_iff hbefore, ih hc, isSpread_cons_cons]
  | @underscore c rest hc hrest ih =>
    have halphanum : c.isAlphanum = true := by simp [Char.isAlphanum, hc]
    rw [recase_underscore hc, isSpread_cons_cons, isSpread_cons_cons, ← ih halphanum]
    simp

/-- A lower-case letter stays one. -/
theorem exists_isLower_head?_recase (before : Char) {text : List Char}
    (h : text.head?.any Char.isLower = true) :
    ∃ next ∈ (recase before text).head?, next.isLower = true := by
  cases text with
  | nil => simp at h
  | cons c rest =>
    have hlower : c.isLower = true := by simpa using h
    have hupper : c.isUpper = false := Bool.eq_false_iff.2 (Char.not_isUpper_of_isLower hlower)
    rw [recase_cons_of_not_isUpper hupper]
    exact ⟨c, rfl, hlower⟩

/-- In other case, no capital is left inside an acronym. -/
theorem isSpread_recase {first before : Char}
    (hfirst : first.isUpper = true → before.isUpper = true)
    (text : List Char) : IsSpread (first :: recase before text) := by
  induction text generalizing first before with
  | nil => exact isSpread_singleton first
  | cons c rest ih =>
    rw [recase, isSpread_cons_cons]
    refine ⟨?_, ih ?_⟩
    · intro hupper hcapital
      split at hcapital
      · rename_i hstart
        rw [startsWord_of_isUpper (hfirst hupper), Bool.and_eq_true] at hstart
        exact exists_isLower_head?_recase c hstart.2
      · simp at hcapital
    · split
      · exact id
      · simp

/-! ## PascalCase once more -/

/-- A text in PascalCase begins as the text it is made of, and what follows has other case. -/
theorem pascal_pascal_cases (text : String) :
    (pascal text).toList = [] ∨
      ∃ c rest, (pascal text).toList = c :: rest ∧ c.isAlphanum = true ∧ Continues rest ∧
        (pascal (pascal text)).toList = c :: recase c rest := by
  have hwords : ∀ w ∈ words text.toList, IsWord w := isWord_of_mem_words
  rcases pascalOfWords_cases hwords with hnil | ⟨c, rest, htext, hc, hupper, hrest⟩
  · exact .inl (by rw [toList_pascal, hnil])
  · refine .inr ⟨c, rest, by rw [toList_pascal, htext], hc, hrest, ?_⟩
    rw [toList_pascal, toList_pascal, htext, pascalOfWords_words_cons hc hupper hrest]

/-- PascalCase of a text stays as it is where no capital stands inside an acronym. -/
theorem pascal_pascal_eq_iff (text : String) :
    pascal (pascal text) = pascal text ↔ IsSpread (pascal text).toList := by
  rcases pascal_pascal_cases text with hnil | ⟨c, rest, htext, hc, hrest, htwice⟩
  · obtain hempty : pascal text = "" := String.toList_eq_nil_iff.1 hnil
    rw [hempty]
    simp [IsSpread, pascal, pascalOfWords]
  · rw [← String.toList_inj, htwice, htext, List.cons.injEq, and_iff_right rfl,
      recase_eq_self_iff hrest hc]

/-- Two rounds leave no two capitals side by side, unless a lower-case letter follows them. -/
theorem isSpread_pascal_pascal (text : String) : IsSpread (pascal (pascal text)).toList := by
  rcases pascal_pascal_cases text with hnil | ⟨c, rest, _, _, _, htwice⟩
  · obtain hempty : pascal text = "" := String.toList_eq_nil_iff.1 hnil
    rw [hempty]
    simp [IsSpread, pascalOfWords]
  · rw [htwice]
    exact isSpread_recase id rest

/--
PascalCase of PascalCase is the same from the second time on.  It is the same at once exactly if
every capital directly behind another one has a lower-case letter directly behind it, which
one-letter words side by side do not see to.
-/
theorem pascal_settles_after_two_rounds :
    (∀ text : String, pascal (pascal (pascal text)) = pascal (pascal text)) ∧
    (∀ text : String, pascal (pascal text) = pascal text ↔ IsSpread (pascal text).toList) ∧
    ∃ text : String, pascal (pascal text) ≠ pascal text := by
  refine ⟨?_, pascal_pascal_eq_iff, "a_b", ?_⟩
  · intro text
    exact (pascal_pascal_eq_iff (pascal text)).2 (isSpread_pascal_pascal text)
  · have hacronym : pascal "a_b" = "AB" := by cbv
    have hword : pascal "AB" = "Ab" := by cbv
    rw [hacronym, hword]
    decide

end QueryHooks.Casing
