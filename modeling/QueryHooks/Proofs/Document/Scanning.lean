import QueryHooks.Document.Lexeme

/-!
# Scanning of written tokens

A text that is written token by token is scanned into these tokens, wherever it stands.  Each token
is recognized by what is written of it and by the fact that what follows cannot go on with it.

Main results:

- Definition `Scans`: a text is scanned into some tokens up to its end.
- Definition `Writes`: a text is scanned into some tokens in front of whatever cannot go on with a
  name.
- Theorems `Writes.append`, `Writes.cons_punctuator` and `Writes.intercalate`: how written tokens
  are put together.
-/

namespace QueryHooks.Document

/-! ## Names -/

/-- A letter or an underscore, and behind it letters, digits and underscores. -/
def IsName : List Char → Prop
  | [] => False
  | c :: rest =>
    (c.isAlpha = true ∨ c = '_') ∧ ∀ d ∈ rest, d.isAlphanum = true ∨ d = '_'

instance : DecidablePred IsName
  | [] => inferInstanceAs (Decidable False)
  | c :: rest =>
    -- The letters of the name are tried, not all characters there are.
    let _ : Decidable (∀ d ∈ rest, d.isAlphanum = true ∨ d = '_') := List.decidableBAll _ rest
    inferInstanceAs (Decidable
      ((c.isAlpha = true ∨ c = '_') ∧ ∀ d ∈ rest, d.isAlphanum = true ∨ d = '_'))

/-- A text does not go on with a name in front of it. -/
def StopsName (text : List Char) : Prop :=
  ∀ c ∈ text.head?, Token.isNamePart c = false

theorem stopsName_nil : StopsName [] := by
  intro c hc
  exact absurd hc (by simp)

/-- A character that is no part of a name stops one. -/
theorem stopsName_cons {c : Char} {rest : List Char} (h : Token.isNamePart c = false) :
    StopsName (c :: rest) := by
  simpa [StopsName] using h

/-- What stops a name still stops it with more text behind it. -/
theorem StopsName.append {text later : List Char} (h : StopsName text) (hlater : StopsName later) :
    StopsName (text ++ later) := by
  cases text with
  | nil => exact hlater
  | cons c text => exact stopsName_cons (h c (by simp))

/-- A name is taken up to the text that stops it. -/
theorem takeWhile_isNamePart {chars rest : List Char}
    (hchars : ∀ c ∈ chars, Token.isNamePart c = true) (hrest : StopsName rest) :
    (chars ++ rest).takeWhile Token.isNamePart = chars ∧
      (chars ++ rest).dropWhile Token.isNamePart = rest := by
  induction chars with
  | nil =>
    cases rest with
    | nil => simp
    | cons c rest =>
      have hc : Token.isNamePart c = false := hrest c (by simp)
      simp [hc]
  | cons c chars ih =>
    have hc := hchars c List.mem_cons_self
    have hlater := ih fun d hd => hchars d (List.mem_cons_of_mem _ hd)
    simp [hc, hlater]

/-! ## The first character of a token -/

/-- Whether a character in front of a token is passed over. -/
def isIgnored (c : Char) : Bool :=
  [' ', ',', '\n', '\t', '\r', '\ufeff', '#'].contains c

/-- Nothing is passed over in front of a character that is not ignored. -/
theorem skipIgnored_of_not_ignored {c : Char} {rest : List Char} (position : Position)
    (h : isIgnored c = false) : skipIgnored false position (c :: rest) = (position, c :: rest) := by
  simp only [isIgnored, List.contains_cons, List.contains_nil, Bool.or_false,
    Bool.or_eq_false_iff, beq_eq_false_iff_ne] at h
  simp [skipIgnored, h]

/-- No character that begins a name is ignored. -/
theorem not_ignored_of_isNameStart {c : Char} (h : c.isAlpha = true ∨ c = '_') :
    isIgnored c = false := by
  rw [Bool.eq_false_iff]
  intro hignored
  simp only [isIgnored, List.contains_iff_mem, List.mem_cons, List.not_mem_nil, or_false]
    at hignored
  rcases hignored with rfl | rfl | rfl | rfl | rfl | rfl | rfl <;> revert h <;> decide

/-- No punctuator is ignored. -/
theorem not_ignored_of_isPunctuator {c : Char} (h : Token.isPunctuator c = true) :
    isIgnored c = false := by
  rw [Bool.eq_false_iff]
  intro hignored
  simp only [isIgnored, List.contains_iff_mem, List.mem_cons, List.not_mem_nil, or_false]
    at hignored
  rcases hignored with rfl | rfl | rfl | rfl | rfl | rfl | rfl <;> revert h <;> decide

theorem not_isPunctuator_of_isNameStart {c : Char} (h : c.isAlpha = true ∨ c = '_') :
    Token.isPunctuator c = false := by
  rw [Bool.eq_false_iff]
  intro hpunctuator
  simp only [Token.isPunctuator, List.contains_iff_mem, List.mem_cons, List.not_mem_nil, or_false]
    at hpunctuator
  rcases hpunctuator with rfl | rfl | rfl | rfl | rfl | rfl | rfl | rfl | rfl | rfl | rfl | rfl |
    rfl <;> revert h <;> decide

/-! ## Single tokens -/

/-- The characters that are read as tokens by themselves. -/
theorem read_punctuator {c : Char} (h : Token.isPunctuator c = true) (rest : List Char) :
    Token.read (c :: rest) = some (.punctuator c, rest) := by
  have hdot : c ≠ '.' := by
    rintro rfl
    exact absurd h (by decide)
  have hquote : c ≠ '"' := by
    rintro rfl
    exact absurd h (by decide)
  simp [Token.read, h, hdot, hquote]

/-- A name is read up to the text that stops it. -/
theorem read_name {chars rest : List Char} (hname : IsName chars) (hrest : StopsName rest) :
    Token.read (chars ++ rest) = some (.name chars, rest) := by
  cases chars with
  | nil => exact hname.elim
  | cons c chars =>
    obtain ⟨hstart, hparts⟩ := hname
    have hnamePart : ∀ d ∈ chars, Token.isNamePart d = true := by
      intro d hd
      simpa [Token.isNamePart] using hparts d hd
    obtain ⟨htake, hdrop⟩ := takeWhile_isNamePart hnamePart hrest
    have hdot : c ≠ '.' := by
      rintro rfl
      revert hstart
      decide
    have hquote : c ≠ '"' := by
      rintro rfl
      revert hstart
      decide
    have hpunctuator := not_isPunctuator_of_isNameStart hstart
    have hnameStart : Token.isNameStart c = true := by simpa [Token.isNameStart] using hstart
    simp [Token.read, hdot, hquote, hpunctuator, hnameStart, htake, hdrop]

/-! ## Texts -/

/-- Wherever a text stands, it is scanned into these tokens up to its end. -/
def Scans (text : List Char) (tokens : List Token) : Prop :=
  ∀ position, ∃ lexemes ending,
    scanFrom position text = ⟨lexemes, .endOfText ending⟩ ∧ lexemes.map Lexeme.token = tokens

/-- What a scan gives depends only on what is left behind the ignored characters. -/
theorem scanFrom_congr {position other : Position} {text another : List Char}
    (h : skipIgnored false position text = skipIgnored false other another) :
    scanFrom position text = scanFrom other another := by
  rw [scanFrom, scanFrom.eq_1 other, h]

/--
Where ignored characters are followed by a token, that token and what is behind it are scanned.
-/
theorem scanFrom_of_skip {position here : Position} {text found rest : List Char} {token : Token}
    (hskip : skipIgnored false position text = (here, found))
    (hread : Token.read found = some (token, rest)) :
    scanFrom position text =
      ⟨⟨here, token⟩ :: (scanFrom (here.after token.source) rest).lexemes,
        (scanFrom (here.after token.source) rest).ending⟩ := by
  have hne : found ≠ [] := by
    rintro rfl
    exact absurd hread (by simp [Token.read])
  rw [scanFrom]
  simp only [hskip, hne, if_false]
  split
  · rename_i hnone
    rw [hskip, hread] at hnone
    exact absurd hnone (by simp)
  · rename_i token' rest' hsome
    rw [hskip, hread] at hsome
    obtain ⟨rfl, rfl⟩ := Prod.mk.inj (Option.some.inj hsome)
    rfl

/-- A text that begins with a token is scanned into that token and what is behind it. -/
theorem scanFrom_of_read {c : Char} {text rest : List Char} {token : Token} (position : Position)
    (hc : isIgnored c = false) (hread : Token.read (c :: text) = some (token, rest)) :
    scanFrom position (c :: text) =
      ⟨⟨position, token⟩ :: (scanFrom (position.after token.source) rest).lexemes,
        (scanFrom (position.after token.source) rest).ending⟩ :=
  scanFrom_of_skip (skipIgnored_of_not_ignored position hc) hread

namespace Scans

variable {text : List Char} {tokens : List Token}

theorem nil : Scans [] [] := by
  intro position
  exact ⟨[], position, by rw [scanFrom]; simp [skipIgnored], rfl⟩

/-- A blank, a comma or a line feed in front of a text changes nothing. -/
theorem ignored {c : Char} (h : Scans text tokens) (hc : c = ' ' ∨ c = ',' ∨ c = '\n') :
    Scans (c :: text) tokens := by
  intro position
  have hskip : ∃ other, skipIgnored false position (c :: text) = skipIgnored false other text := by
    rcases hc with rfl | rfl | rfl
    · exact ⟨position.right 1, by simp [skipIgnored]⟩
    · exact ⟨position.right 1, by simp [skipIgnored]⟩
    · exact ⟨position.nextLine, by simp [skipIgnored]⟩
  obtain ⟨other, hother⟩ := hskip
  rw [scanFrom_congr hother]
  exact h other

/-- A token in front of a text is scanned before the tokens of the text. -/
theorem token {c : Char} {rest : List Char} {token : Token} (h : Scans text tokens)
    (hc : isIgnored c = false) (hread : Token.read (c :: rest) = some (token, text)) :
    Scans (c :: rest) (token :: tokens) := by
  intro position
  obtain ⟨lexemes, ending, hscan, htokens⟩ := h (position.after token.source)
  refine ⟨⟨position, token⟩ :: lexemes, ending, ?_, by simp [htokens]⟩
  rw [scanFrom_of_read position hc hread, hscan]

end Scans

/-! ## Written tokens -/

/-- A text is scanned into these tokens in front of whatever stops a name. -/
def Writes (written : List Char) (tokens : List Token) : Prop :=
  ∀ text later, Scans text later → StopsName text → Scans (written ++ text) (tokens ++ later)

namespace Writes

variable {written second : List Char} {tokens later : List Token}

/-- Tokens that are written in a text are the ones that are scanned from it. -/
theorem scans (h : Writes written tokens) : Scans written tokens := by
  have hscans := h [] [] Scans.nil stopsName_nil
  simpa using hscans

theorem nil : Writes [] [] := by
  intro text later hscans _
  exact hscans

/-- A name writes its token. -/
theorem name {chars : List Char} (hname : IsName chars) : Writes chars [.name chars] := by
  intro text later hscans hstop
  have hread := read_name hname hstop
  cases chars with
  | nil => exact hname.elim
  | cons c chars => exact hscans.token (not_ignored_of_isNameStart hname.1) hread

/-- Two written texts stand behind each other if the second cannot go on with a name. -/
theorem append (h : Writes written tokens) (hsecond : Writes second later)
    (hstop : StopsName second) : Writes (written ++ second) (tokens ++ later) := by
  intro text behind hscans hbehind
  rw [List.append_assoc, List.append_assoc]
  exact h _ _ (hsecond text behind hscans hbehind) (hstop.append hbehind)

/-- A punctuator writes its token in front of others. -/
theorem cons_punctuator {c : Char} (h : Writes written tokens) (hc : Token.isPunctuator c = true) :
    Writes (c :: written) (.punctuator c :: tokens) := by
  intro text later hscans hstop
  have hrest := h text later hscans hstop
  exact hrest.token (not_ignored_of_isPunctuator hc) (read_punctuator hc _)

/-- A character that is ignored writes nothing. -/
theorem cons_ignored {c : Char} (h : Writes written tokens) (hc : c = ' ' ∨ c = ',' ∨ c = '\n') :
    Writes (c :: written) tokens := by
  intro text later hscans hstop
  exact (h text later hscans hstop).ignored hc

/--
Written items that are parted by ignored characters are scanned into the tokens of all of them.
-/
theorem intercalate {α : Type} {separator : List Char} {print : α → List Char}
    {tokensOf : α → List Token} {items : List α} (hne : separator ≠ [])
    (hseparator : ∀ c ∈ separator, c = ' ' ∨ c = ',' ∨ c = '\n')
    (h : ∀ item ∈ items, Writes (print item) (tokensOf item)) :
    Writes (separator.intercalate (items.map print)) (items.flatMap tokensOf) := by
  have hparted {written : List Char} {tokens : List Token} (hwritten : Writes written tokens) :
      Writes (separator ++ written) tokens := by
    clear hne
    induction separator with
    | nil => exact hwritten
    | cons c separator ih =>
      have hlater := ih fun d hd => hseparator d (List.mem_cons_of_mem _ hd)
      exact hlater.cons_ignored (hseparator c List.mem_cons_self)
  have hstops (written : List Char) : StopsName (separator ++ written) := by
    obtain ⟨c, rest, rfl⟩ := List.exists_cons_of_ne_nil hne
    apply stopsName_cons
    rcases hseparator c List.mem_cons_self with rfl | rfl | rfl <;> decide
  induction items with
  | nil => exact nil
  | cons item items ih =>
    have hitem := h item List.mem_cons_self
    have hitems := ih fun other hother => h other (List.mem_cons_of_mem _ hother)
    cases items with
    | nil => simpa using hitem
    | cons other items =>
      have hboth := hitem.append (hparted hitems) (hstops _)
      simpa using hboth

end Writes

end QueryHooks.Document
