import QueryHooks.Proofs.Document.Scanning

/-!
# Scanning of joined texts

A line feed ends whatever token or comment stands in front of it, and no string goes on behind it.
So a text that is scanned up to its end keeps its lexemes when a line feed and another text follow
it, and that other text is scanned as on a line of its own.  Which tokens a text has does not depend
on where it stands.

Main results:

- Theorem `Token.read_append_lf`: a token is read in the same way if a line feed and another text
  follow.
- Theorem `scanFrom_append_lf`: joined texts are scanned one after the other.
- Theorem `scans_of_scanFrom`: a text that is scanned up to its end has the same tokens wherever it
  stands.
-/

namespace QueryHooks.Document

/-! ## Tokens in front of a line feed -/

namespace Token

variable {text chars rest : List Char} (more : List Char)

/-- A string that is complete is read alike with more text behind it. -/
theorem readString_append {escaped : Bool} (h : readString escaped text = some (chars, rest)) :
    readString escaped (text ++ more) = some (chars, rest ++ more) := by
  fun_induction readString escaped text generalizing chars with
  | case1 => exact absurd h (by simp)
  | case2 => exact absurd h (by simp)
  | case3 => simp_all [readString]
  | case4 escaped c later hlf hquote ih =>
    obtain ⟨⟨chars', rest'⟩, hread, heq⟩ := Option.map_eq_some_iff.1 h
    obtain ⟨rfl, rfl⟩ := Prod.mk.inj heq
    rw [List.cons_append, readString, if_neg hlf, if_neg hquote, ih hread]
    rfl

/-- A block string that is complete is read alike with more text behind it. -/
theorem readBlock_append {afterBackslash : Bool}
    (h : readBlock afterBackslash text = some (chars, rest)) :
    readBlock afterBackslash (text ++ more) = some (chars, rest ++ more) := by
  fun_induction readBlock afterBackslash text generalizing chars with
  | case1 later ih =>
    obtain ⟨⟨chars', rest'⟩, hread, heq⟩ := Option.map_eq_some_iff.1 h
    obtain ⟨rfl, rfl⟩ := Prod.mk.inj heq
    simp [readBlock, ih hread]
  | case2 => simp_all [readBlock]
  | case3 afterBackslash c later hquotes ih =>
    obtain ⟨⟨chars', rest'⟩, hread, heq⟩ := Option.map_eq_some_iff.1 h
    obtain ⟨rfl, rfl⟩ := Prod.mk.inj heq
    have hnot : ∀ tail, c = '"' → later ++ more = '"' :: '"' :: tail → False := by
      intro tail hc htail
      match later, hread with
      | a :: b :: later, hread =>
        simp only [List.cons_append, List.cons.injEq] at htail
        exact hquotes later hc (by rw [htail.1, htail.2.1])
      | [_], hread => simp [readBlock] at hread
      | [], hread => simp [readBlock] at hread
    rw [List.cons_append, readBlock, ih hread]
    · rfl
    · exact hnot
  | case4 => exact absurd h (by simp)

/-- What ends at a line feed at the latest is the same with more lines behind it. -/
theorem takeWhile_append_lf {p : Char → Bool} (hp : p '\n' = false) (text later : List Char) :
    (text ++ '\n' :: later).takeWhile p = text.takeWhile p ∧
      (text ++ '\n' :: later).dropWhile p = text.dropWhile p ++ '\n' :: later := by
  induction text with
  | nil => simp [hp]
  | cons c text ih =>
    cases hc : p c <;> simp [hc, ih]

/-- A token that begins with neither a dot nor a quote is decided by its first character. -/
theorem read_of_ne {c : Char} (hdot : c ≠ '.') (hquote : c ≠ '"') (rest : List Char) :
    read (c :: rest) =
      if isPunctuator c then some (punctuator c, rest)
      else if isNameStart c then
        some (name (c :: rest.takeWhile isNamePart), rest.dropWhile isNamePart)
      else if c = '-' ∨ c.isDigit then
        if (Number.parse? (c :: rest.takeWhile (!endsNumber ·))).isSome then
          some (number (c :: rest.takeWhile (!endsNumber ·)), rest.dropWhile (!endsNumber ·))
        else none
      else none := by
  simp [read, hdot, hquote]

/-- A line feed does not double what stands at the end of a text. -/
theorem ne_double_append_lf {c : Char} {text : List Char} (hc : c ≠ '\n')
    (h : ∀ tail, text ≠ c :: c :: tail) (later tail : List Char) :
    text ++ '\n' :: later ≠ c :: c :: tail := by
  match text with
  | [] => simp [hc.symm]
  | [_] => simp [hc.symm]
  | a :: b :: text =>
    intro htail
    simp only [List.cons_append, List.cons.injEq] at htail
    exact h text (by rw [htail.1, htail.2.1])

/-- A string or a block string is read in the same way if a line feed and another text follow. -/
theorem read_quote_append_lf {token : Token} (later : List Char)
    (h : read ('"' :: text) = some (token, rest)) :
    read ('"' :: (text ++ '\n' :: later)) = some (token, rest ++ '\n' :: later) := by
  by_cases hblock : ∃ tail, text = '"' :: '"' :: tail
  · obtain ⟨tail, rfl⟩ := hblock
    rw [read] at h
    obtain ⟨⟨chars, rest'⟩, hread, heq⟩ := Option.map_eq_some_iff.1 h
    obtain ⟨rfl, rfl⟩ := Prod.mk.inj heq
    simp [read, readBlock_append _ hread]
  · have hnot : ∀ tail, text ≠ '"' :: '"' :: tail := fun tail htail => hblock ⟨tail, htail⟩
    rw [read.eq_4 _ hnot] at h
    obtain ⟨⟨chars, rest'⟩, hread, heq⟩ := Option.map_eq_some_iff.1 h
    obtain ⟨rfl, rfl⟩ := Prod.mk.inj heq
    rw [read.eq_4 _ (ne_double_append_lf (by decide) hnot later), readString_append _ hread]
    rfl

/-- A dot begins a token only as the first of three. -/
theorem read_dot_eq_none {rest : List Char} (h : ∀ tail, rest ≠ '.' :: '.' :: tail) :
    read ('.' :: rest) = none := by
  rw [read.eq_5 '.' rest (fun tail _ => h tail) (by simp) (by simp)]
  rfl

/-- A token is read in the same way if a line feed and another text follow. -/
theorem read_append_lf {token : Token} (later : List Char) (h : read text = some (token, rest)) :
    read (text ++ '\n' :: later) = some (token, rest ++ '\n' :: later) := by
  match text with
  | [] => exact absurd h (by simp [read])
  | c :: text =>
    rw [List.cons_append]
    by_cases hquote : c = '"'
    · subst hquote
      exact read_quote_append_lf later h
    by_cases hdot : c = '.'
    · subst hdot
      by_cases hthree : ∃ tail, text = '.' :: '.' :: tail
      · obtain ⟨tail, rfl⟩ := hthree
        simp_all [read]
      · rw [read_dot_eq_none fun tail htail => hthree ⟨tail, htail⟩] at h
        exact absurd h (by simp)
    · obtain ⟨hname, hbehindName⟩ := takeWhile_append_lf (p := isNamePart) (by decide) text later
      obtain ⟨hnumber, hbehindNumber⟩ :=
        takeWhile_append_lf (p := fun c => !endsNumber c) (by decide) text later
      rw [read_of_ne hdot hquote] at h
      rw [read_of_ne hdot hquote, hname, hbehindName, hnumber, hbehindNumber]
      repeat' split at h
      all_goals simp_all

end Token

/-! ## Joined texts -/

/-- Behind a text of ignored characters only, a line feed begins a new line. -/
theorem skipIgnored_append_lf {inComment : Bool} {position ending : Position} {text : List Char}
    (h : skipIgnored inComment position text = (ending, [])) (later : List Char) :
    skipIgnored inComment position (text ++ '\n' :: later) =
      skipIgnored false ending.nextLine later := by
  fun_induction skipIgnored inComment position text <;> simp_all [skipIgnored]

/-- In front of a token, ignored characters are skipped whatever follows it. -/
theorem skipIgnored_append {inComment : Bool} {position here : Position} {text rest : List Char}
    (h : skipIgnored inComment position text = (here, rest)) (hne : rest ≠ []) (more : List Char) :
    skipIgnored inComment position (text ++ more) = (here, rest ++ more) := by
  fun_induction skipIgnored inComment position text with
  | case9 =>
    obtain ⟨rfl, rfl⟩ := Prod.mk.inj h
    simp_all [skipIgnored]
  | _ => simp_all [skipIgnored]

/--
A text that is scanned up to its end can be followed by another one on the next line: the lexemes of
both are scanned one after the other.
-/
theorem scanFrom_append_lf {text : List Char} {position ending : Position} {lexemes : List Lexeme}
    (h : scanFrom position text = ⟨lexemes, .endOfText ending⟩) (later : List Char) :
    scanFrom position (text ++ '\n' :: later) =
      ⟨lexemes ++ (scanFrom ending.nextLine later).lexemes,
        (scanFrom ending.nextLine later).ending⟩ := by
  fun_induction scanFrom position text generalizing lexemes with
  | case1 position text here =>
    rename_i hnil
    obtain ⟨rfl, hending⟩ := Scan.mk.inj h
    have hhere : here.1 = ending := by simpa using hending
    have hskip : skipIgnored false position text = (ending, []) := Prod.ext hhere hnil
    exact scanFrom_congr (skipIgnored_append_lf hskip later)
  | case2 =>
    exact absurd (Scan.mk.inj h).2 (by simp)
  | case3 position text here hne token rest hread behind =>
    rename_i ih
    obtain ⟨rfl, hending⟩ := Scan.mk.inj h
    have hbehind : behind = ⟨behind.lexemes, .endOfText ending⟩ := by rw [← hending]
    have hskip : skipIgnored false position (text ++ '\n' :: later) =
        (here.1, here.2 ++ '\n' :: later) := skipIgnored_append rfl hne _
    rw [scanFrom_of_skip hskip (Token.read_append_lf later hread), ih hbehind]
    rfl

/-! ## Places of a text -/

/-- What is left behind ignored characters does not depend on where they stand. -/
theorem skipIgnored_snd (inComment : Bool) (position other : Position) (text : List Char) :
    (skipIgnored inComment other text).2 = (skipIgnored inComment position text).2 := by
  fun_induction skipIgnored inComment position text generalizing other <;> simp_all [skipIgnored]

/-- A text that is scanned up to its end has the same tokens wherever it stands. -/
theorem scans_of_scanFrom {text : List Char} {position ending : Position} {lexemes : List Lexeme}
    (h : scanFrom position text = ⟨lexemes, .endOfText ending⟩) :
    Scans text (lexemes.map Lexeme.token) := by
  fun_induction scanFrom position text generalizing lexemes with
  | case1 position text here =>
    rename_i hnil
    obtain ⟨rfl, _⟩ := Scan.mk.inj h
    intro other
    have hskip := skipIgnored_snd false position other text
    refine ⟨[], (skipIgnored false other text).1, ?_, rfl⟩
    rw [scanFrom]
    simp [hskip.trans hnil]
  | case2 =>
    exact absurd (Scan.mk.inj h).2 (by simp)
  | case3 position text here hne token rest hread behind =>
    rename_i ih
    obtain ⟨rfl, hending⟩ := Scan.mk.inj h
    intro other
    have hbehind : behind = ⟨behind.lexemes, .endOfText ending⟩ := by rw [← hending]
    have hskip : skipIgnored false other text = ((skipIgnored false other text).1, here.2) :=
      Prod.ext rfl (skipIgnored_snd false position other text)
    obtain ⟨lexemes, ending', hscan, htokens⟩ :=
      ih hbehind ((skipIgnored false other text).1.after token.source)
    refine ⟨⟨(skipIgnored false other text).1, token⟩ :: lexemes, ending', ?_, by simp [htokens]⟩
    rw [scanFrom_of_skip hskip hread, hscan]

end QueryHooks.Document
