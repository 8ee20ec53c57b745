import QueryHooks.Proofs.Document.JoinedTexts
import QueryHooks.Proofs.Text.Letters

/-!
# Texts of tokens

A token is read off a text exactly if the text begins with what is written of it, this is the text
of such a token, and what follows does not go on with it.  So a token can be written in front of any
text that stops it, and only the first character of that text decides on this.

Main results:

- Definition `Token.Stops`: a text does not go on with the token in front of it.
- Definition `Token.Readable`: what is written of a token is the text of such a token.
- Theorem `Token.read_source`: a readable token is read from its text in front of what stops it.
- Theorem `Token.read_eq_some_iff`: the texts that a token is read off.
-/

namespace QueryHooks.Document

namespace Token

/-- A text does not go on with the token in front of it. -/
def Stops (rest : List Char) : Token → Prop
  | name _ => StopsName rest
  | number _ => ∀ c ∈ rest.head?, endsNumber c = true
  | string [] => ∀ c ∈ rest.head?, c ≠ '"'
  | _ => True

/-- What is written of a token is the text of such a token. -/
def Readable : Token → Prop
  | punctuator c => isPunctuator c = true
  | ellipsis => True
  | name chars => IsName chars
  | number chars => (Number.parse? chars).isSome = true ∧ ∀ c ∈ chars, endsNumber c = false
  | string chars => readString false (chars ++ ['"']) = some (chars, [])
  | block chars => readBlock false (chars ++ ['"', '"', '"']) = some (chars, [])

variable {text chars rest : List Char}

/-- Only the first character of what follows decides on whether a token goes on. -/
theorem Stops.of_append {other : List Char} {token : Token} (h : token.Stops (text ++ rest))
    (hne : text ≠ []) : token.Stops (text ++ other) := by
  obtain ⟨c, text, rfl⟩ := List.exists_cons_of_ne_nil hne
  cases token with
  | name => exact h
  | number => exact h
  | string chars =>
    cases chars with
    | nil => exact h
    | cons => trivial
  | punctuator | ellipsis | block => trivial

theorem stops_nil (token : Token) : token.Stops [] := by
  cases token with
  | name => exact stopsName_nil
  | string chars => cases chars <;> simp [Stops]
  | punctuator | ellipsis | number | block => simp [Stops]

/-- A character that ends a number ends any token in front of it. -/
theorem stops_cons {c : Char} (h : endsNumber c = true) (token : Token) (rest : List Char) :
    token.Stops (c :: rest) := by
  have hpart : isNamePart c = false ∧ c ≠ '"' := by
    simp only [endsNumber, isPunctuator, Bool.or_eq_true, List.contains_iff_mem, List.mem_cons,
      List.not_mem_nil, or_false] at h
    rcases h with (rfl | rfl | rfl | rfl | rfl | rfl | rfl | rfl | rfl | rfl | rfl | rfl | rfl) |
      rfl | rfl | rfl | rfl | rfl | rfl <;> decide
  cases token with
  | name => exact stopsName_cons hpart.1
  | number => simpa [Stops] using h
  | string chars =>
    cases chars with
    | nil => simpa [Stops] using hpart.2
    | cons => trivial
  | punctuator | ellipsis | block => trivial

/-- What is read of a string is read from itself with the quote behind it. -/
theorem readString_self {escaped : Bool} (h : readString escaped text = some (chars, rest)) :
    readString escaped (chars ++ ['"']) = some (chars, []) := by
  fun_induction readString escaped text generalizing chars rest with
  | case1 => exact absurd h (by simp)
  | case2 => exact absurd h (by simp)
  | case3 => simp_all [readString]
  | case4 escaped c later hlf hquote ih =>
    obtain ⟨⟨chars', rest'⟩, hread, heq⟩ := Option.map_eq_some_iff.1 h
    obtain ⟨rfl, rfl⟩ := Prod.mk.inj heq
    rw [List.cons_append, readString, if_neg hlf, if_neg hquote, ih hread]
    rfl

/-- What is read of a block string is read from itself with three quotes behind it. -/
theorem readBlock_self {afterBackslash : Bool}
    (h : readBlock afterBackslash text = some (chars, rest)) :
    readBlock afterBackslash (chars ++ ['"', '"', '"']) = some (chars, []) := by
  fun_induction readBlock afterBackslash text generalizing chars rest with
  | case1 later ih =>
    obtain ⟨⟨chars', rest'⟩, hread, heq⟩ := Option.map_eq_some_iff.1 h
    obtain ⟨rfl, rfl⟩ := Prod.mk.inj heq
    simp [readBlock, ih hread]
  | case2 => simp_all [readBlock]
  | case3 afterBackslash c later hquotes ih =>
    obtain ⟨⟨chars', rest'⟩, hread, heq⟩ := Option.map_eq_some_iff.1 h
    obtain ⟨rfl, rfl⟩ := Prod.mk.inj heq
    have hlater := readBlock_eq hread
    have hnot : ∀ tail, c = '"' → chars' ++ ['"', '"', '"'] = '"' :: '"' :: tail → False := by
      intro tail hc htail
      rcases chars' with _ | ⟨a, _ | ⟨b, chars'⟩⟩
      · exact hquotes _ hc hlater
      · simp only [List.cons_append, List.cons.injEq] at htail
        exact hquotes _ hc (by rw [hlater, htail.1]; rfl)
      · simp only [List.cons_append, List.cons.injEq] at htail
        exact hquotes _ hc (by rw [hlater, htail.1, htail.2.1]; rfl)
    rw [List.cons_append, readBlock, ih hread]
    · rfl
    · exact hnot
  | case4 => exact absurd h (by simp)

/-- A number literal begins with a minus sign or with a digit. -/
theorem exists_cons_of_parse (h : (Number.parse? chars).isSome = true) :
    ∃ c later, chars = c :: later ∧ (c = '-' ∨ c.isDigit = true) := by
  cases chars with
  | nil => exact absurd h (by decide)
  | cons c later =>
    refine ⟨c, later, rfl, ?_⟩
    cases hdigit : c.isDigit with
    | true => exact .inr rfl
    | false =>
      refine .inl (Classical.byContradiction fun hminus => ?_)
      simp [Number.parse?, hminus, hdigit, Number.isWhole] at h

/-- A number is taken up to the text that stops it. -/
theorem takeWhile_not_endsNumber (hchars : ∀ c ∈ chars, endsNumber c = false)
    (hrest : ∀ c ∈ rest.head?, endsNumber c = true) :
    (chars ++ rest).takeWhile (!endsNumber ·) = chars ∧
      (chars ++ rest).dropWhile (!endsNumber ·) = rest := by
  induction chars with
  | nil =>
    cases rest with
    | nil => simp
    | cons c rest =>
      have hc : endsNumber c = true := hrest c (by simp)
      simp [hc]
  | cons c chars ih =>
    have hc := hchars c List.mem_cons_self
    have hlater := ih fun d hd => hchars d (List.mem_cons_of_mem _ hd)
    simp [hc, hlater]

/-- What begins a number begins no other token. -/
theorem startsNumber_cases {c : Char} (h : c = '-' ∨ c.isDigit = true) :
    c ≠ '.' ∧ c ≠ '"' ∧ endsNumber c = false ∧ isNameStart c = false := by
  rcases h with rfl | hdigit
  · decide
  · have halpha : c.isAlpha = false := by
      rw [Bool.eq_false_iff]
      intro halpha
      rw [Text.isDigit_eq_false_of_isAlpha halpha] at hdigit
      exact absurd hdigit (by simp)
    have hne (d : Char) (hd : d.isDigit = false) : c ≠ d := by
      rintro rfl
      rw [hd] at hdigit
      exact absurd hdigit (by simp)
    refine ⟨hne _ (by decide), hne _ (by decide), ?_, ?_⟩
    · simp only [endsNumber, isPunctuator, List.contains_eq_mem, List.mem_cons, List.not_mem_nil,
        or_false, Bool.or_eq_false_iff, decide_eq_false_iff_not, not_or]
      refine ⟨⟨?_, ?_, ?_, ?_, ?_, ?_, ?_, ?_, ?_, ?_, ?_, ?_, ?_⟩, ?_, ?_, ?_, ?_, ?_, ?_⟩ <;>
        exact hne _ (by decide)
    · simp [isNameStart, halpha, hne '_' (by decide)]

/-- A number is read up to the first character that ends it. -/
theorem read_number (hparse : (Number.parse? chars).isSome = true)
    (hchars : ∀ c ∈ chars, endsNumber c = false) (hrest : ∀ c ∈ rest.head?, endsNumber c = true) :
    read (chars ++ rest) = some (number chars, rest) := by
  obtain ⟨c, later, rfl, hc⟩ := exists_cons_of_parse hparse
  obtain ⟨hdot, hquote, hends, hname⟩ := startsNumber_cases hc
  have hpunctuator : isPunctuator c = false := by
    rw [endsNumber, Bool.or_eq_false_iff] at hends
    exact hends.1
  obtain ⟨htake, hdrop⟩ :=
    takeWhile_not_endsNumber (fun d hd => hchars d (List.mem_cons_of_mem _ hd)) hrest
  rw [List.cons_append, read_of_ne hdot hquote, htake, hdrop, if_neg (by simp [hpunctuator]),
    if_neg (by simp [hname]), if_pos hc, if_pos hparse]

/-- A text that begins like a number but is none is not read. -/
theorem read_number_eq_none {c : Char} {chars rest : List Char} (hc : c = '-' ∨ c.isDigit = true)
    (hchars : ∀ d ∈ chars, endsNumber d = false) (hparse : Number.parse? (c :: chars) = none)
    (hrest : ∀ d ∈ rest.head?, endsNumber d = true) : read (c :: chars ++ rest) = none := by
  obtain ⟨hdot, hquote, hends, hname⟩ := startsNumber_cases hc
  have hpunctuator : isPunctuator c = false := by
    rw [endsNumber, Bool.or_eq_false_iff] at hends
    exact hends.1
  rw [List.cons_append, read_of_ne hdot hquote, (takeWhile_not_endsNumber hchars hrest).1,
    if_neg (by simp [hpunctuator]), if_neg (by simp [hname]), if_pos hc, hparse]
  rfl

/-- Something is written of a readable token. -/
theorem source_ne_nil {token : Token} (h : token.Readable) : token.source ≠ [] := by
  cases token with
  | name chars =>
    rintro rfl
    exact h.elim
  | number chars =>
    rintro rfl
    exact absurd h.1 (by decide)
  | punctuator | ellipsis | string | block => simp [source]

/-- A string does not begin with a quote, unless it is empty. -/
theorem ne_quote_of_readString {c : Char}
    (h : readString false (c :: text) = some (c :: chars, rest)) :
    c ≠ '"' := by
  rintro rfl
  simp [readString] at h

/-- What is written of a token is read as that token in front of whatever stops it. -/
theorem read_source {token : Token} (h : token.Readable) (hstops : token.Stops rest) :
    read (token.source ++ rest) = some (token, rest) := by
  cases token with
  | punctuator c => exact read_punctuator h rest
  | ellipsis => rfl
  | name chars => exact read_name h hstops
  | number chars => exact read_number h.1 h.2 hstops
  | string chars =>
    have hread := readString_append rest h
    rw [List.append_assoc, List.nil_append] at hread
    have hnot : ∀ tail, chars ++ (['"'] ++ rest) ≠ '"' :: '"' :: tail := by
      intro tail htail
      cases chars with
      | nil =>
        simp only [List.nil_append, List.cons_append, List.cons.injEq, true_and] at htail
        exact hstops '"' (by simp [htail]) rfl
      | cons c chars =>
        rw [List.cons_append] at hread htail
        exact ne_quote_of_readString hread (List.cons.inj htail).1
    rw [source, List.cons_append, List.cons_append, List.append_assoc, read.eq_4 _ hnot, hread]
    rfl
  | block chars =>
    have hread := readBlock_append rest h
    rw [List.append_assoc, List.nil_append, List.cons_append, List.cons_append, List.cons_append,
      List.nil_append] at hread
    simp [source, read, hread]

/-- A text behind the longest beginning of some sort does not go on in that way. -/
theorem head_dropWhile (p : Char → Bool) (text : List Char) :
    ∀ c ∈ (text.dropWhile p).head?, p c = false := by
  intro c hc
  have hhead := List.head?_dropWhile_not p text
  rw [Option.mem_def.1 hc] at hhead
  simpa using hhead

/-- A token that is read is readable, and what follows it stops it. -/
theorem readable_and_stops_of_read {token : Token} (h : read text = some (token, rest)) :
    token.Readable ∧ token.Stops rest := by
  fun_cases read text with
  | case1 => exact absurd h (by simp [read])
  | case2 =>
    obtain ⟨rfl, rfl⟩ := Prod.mk.inj (Option.some.inj h)
    exact ⟨trivial, trivial⟩
  | case3 =>
    simp only [read, Option.map_eq_some_iff, Prod.mk.injEq, Prod.exists] at h
    obtain ⟨_, _, hread, rfl, rfl⟩ := h
    exact ⟨readBlock_self hread, trivial⟩
  | case4 later hnot =>
    rw [read.eq_4 _ hnot, Option.map_eq_some_iff] at h
    obtain ⟨⟨chars, behind⟩, hread, heq⟩ := h
    obtain ⟨rfl, rfl⟩ := Prod.mk.inj heq
    refine ⟨readString_self hread, ?_⟩
    cases chars with
    | cons c chars => trivial
    | nil =>
      rintro c hc rfl
      obtain ⟨tail, rfl⟩ : ∃ tail, behind = '"' :: tail := List.head?_eq_some_iff.1 hc
      exact hnot tail (readString_eq hread)
  | case5 c later hdot hblock hquote hpunctuator =>
    rw [read.eq_5 _ _ hdot hblock hquote, if_pos hpunctuator] at h
    obtain ⟨rfl, rfl⟩ := Prod.mk.inj (Option.some.inj h)
    exact ⟨hpunctuator, trivial⟩
  | case6 c later hdot hblock hquote hpunctuator hname =>
    rw [read.eq_5 _ _ hdot hblock hquote, if_neg hpunctuator, if_pos hname] at h
    obtain ⟨rfl, rfl⟩ := Prod.mk.inj (Option.some.inj h)
    refine ⟨⟨by simpa [isNameStart] using hname, ?_⟩, head_dropWhile _ _⟩
    intro d hd
    simpa [isNamePart] using List.mem_takeWhile_imp hd
  | case7 c later hdot hblock hquote hpunctuator hname hc chars hparse =>
    rw [read.eq_5 _ _ hdot hblock hquote, if_neg hpunctuator, if_neg hname, if_pos hc] at h
    have hread : some (number chars, later.dropWhile (!endsNumber ·)) = some (token, rest) := by
      rw [← h, if_pos hparse]
    obtain ⟨rfl, rfl⟩ := Prod.mk.inj (Option.some.inj hread)
    refine ⟨⟨hparse, ?_⟩, ?_⟩
    · intro d hd
      rcases List.mem_cons.1 hd with rfl | hd
      · exact (startsNumber_cases hc).2.2.1
      · simpa using List.mem_takeWhile_imp hd
    · intro d hd
      simpa using head_dropWhile _ _ d hd
  | case8 c later hdot hblock hquote hpunctuator hname hc chars hparse =>
    rw [read.eq_5 _ _ hdot hblock hquote, if_neg hpunctuator, if_neg hname, if_pos hc] at h
    rw [if_neg hparse] at h
    exact absurd h (by simp)
  | case9 c later hdot hblock hquote hpunctuator hname hc =>
    rw [read.eq_5 _ _ hdot hblock hquote, if_neg hpunctuator, if_neg hname, if_neg hc] at h
    exact absurd h (by simp)

/--
A token is read off a text that begins with what is written of it and goes on with what stops it.
-/
theorem read_eq_some_iff {token : Token} :
    read text = some (token, rest) ↔
      text = token.source ++ rest ∧ token.Readable ∧ token.Stops rest := by
  constructor
  · intro h
    exact ⟨read_eq h, readable_and_stops_of_read h⟩
  · rintro ⟨rfl, hreadable, hstops⟩
    exact read_source hreadable hstops

end Token

end QueryHooks.Document
