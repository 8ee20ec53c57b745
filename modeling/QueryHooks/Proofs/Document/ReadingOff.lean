import QueryHooks.Proofs.Document.TokenTexts

/-!
# Reading tokens off a text

A text is scanned by passing over ignored characters and reading a token, again and again.  Without
the positions this is a relation between a text, the tokens that are read off its start and what is
left of it.  What is left does not matter to the tokens in front of it, if the last of them is a
punctuation character; so the text behind an equals sign can be replaced by any other one.

Main results:

- Definition `ReadsOff`: tokens are read off the start of a text.
- Theorem `ReadsOff.replace`: behind a punctuation character, another text can take the place of
  what follows.
- Theorem `ReadsOff.readsThrough_behind`: what is read off a text is a beginning of all that is read
  off it.
- Theorem `ReadsThrough.unique`: all that can be read of a text is determined by it.
- Theorem `scans_iff_readsThrough`: a text is scanned into the tokens that are read off it up to its
  end.
-/

namespace QueryHooks.Document

/-! ## What stands behind ignored characters -/

/-- A text without the ignored characters at its start. -/
def unignored (text : List Char) : List Char :=
  (skipIgnored false {} text).2

/-- A text that begins with a character of a token has nothing to ignore. -/
theorem unignored_of_not_ignored {c : Char} (h : isIgnored c = false) (rest : List Char) :
    unignored (c :: rest) = c :: rest := by
  rw [unignored, skipIgnored_of_not_ignored _ h]

/-- No character that begins a number is ignored. -/
theorem Token.not_ignored_of_startsNumber {c : Char} (h : c = '-' ∨ c.isDigit = true) :
    isIgnored c = false := by
  rw [Bool.eq_false_iff]
  intro hignored
  simp only [isIgnored, List.contains_iff_mem, List.mem_cons, List.not_mem_nil,
    or_false] at hignored
  rcases hignored with rfl | rfl | rfl | rfl | rfl | rfl | rfl <;> revert h <;> decide

/-- What is written of a readable token does not begin with an ignored character. -/
theorem Token.unignored_source {token : Token} (h : token.Readable) (rest : List Char) :
    unignored (token.source ++ rest) = token.source ++ rest := by
  cases token with
  | punctuator c => exact unignored_of_not_ignored (not_ignored_of_isPunctuator h) rest
  | name chars =>
    cases chars with
    | nil => exact h.elim
    | cons c chars => exact unignored_of_not_ignored (not_ignored_of_isNameStart h.1) _
  | number chars =>
    obtain ⟨c, later, rfl, hc⟩ := exists_cons_of_parse h.1
    exact unignored_of_not_ignored (not_ignored_of_startsNumber hc) _
  | ellipsis | string | block => exact unignored_of_not_ignored (by decide) _

theorem skipIgnored_eq_unignored (position : Position) (text : List Char) :
    skipIgnored false position text = ((skipIgnored false position text).1, unignored text) :=
  Prod.ext rfl (skipIgnored_snd false {} position text)

/-- What is left behind ignored characters does not depend on the position. -/
theorem skipIgnored_snd_eq (place : Position) (text : List Char) :
    (skipIgnored false place text).2 = unignored text :=
  skipIgnored_snd false {} place text

/-- The ignored characters in front of a token are passed over whatever follows them. -/
theorem exists_gap_of_skipIgnored (inComment : Bool) (position : Position) (text : List Char) :
    ∃ gap, text = gap ++ (skipIgnored inComment position text).2 ∧
      ((skipIgnored inComment position text).2 ≠ [] → ∀ place other,
        (skipIgnored inComment place (gap ++ other)).2 = unignored other) := by
  fun_induction skipIgnored inComment position text with
  | case1 => exact ⟨[], rfl, by simp⟩
  | case9 => exact ⟨[], rfl, fun _ _ _ => by simp_all [skipIgnored_snd_eq]⟩
  | case2 | case3 | case4 | case5 | case6 | case7 | case8 =>
    rename_i ih
    obtain ⟨gap, heq, hgap⟩ := ih
    refine ⟨_ :: gap, congrArg (List.cons _) heq, fun hne place other => ?_⟩
    have hlater := hgap hne
    clear heq hgap hne
    simp_all [skipIgnored]

/-- The ignored characters at the start of a text can be moved in front of another one. -/
theorem exists_gap (text : List Char) :
    ∃ gap, text = gap ++ unignored text ∧
      (unignored text ≠ [] → ∀ other, unignored (gap ++ other) = unignored other) := by
  obtain ⟨gap, heq, hgap⟩ := exists_gap_of_skipIgnored false {} text
  exact ⟨gap, heq, fun hne other => hgap hne {} other⟩

/-- What is left behind ignored characters begins with a character that is not ignored. -/
theorem not_ignored_of_skipIgnored {inComment : Bool} {position : Position} {text rest : List Char}
    {c : Char} (h : (skipIgnored inComment position text).2 = c :: rest) : isIgnored c = false := by
  fun_induction skipIgnored inComment position text with
  | case1 => exact absurd h (by simp)
  | case9 => simp_all [isIgnored]
  | case2 | case3 | case4 | case5 | case6 | case7 | case8 =>
    rename_i ih
    exact ih h

/-- Ignored characters are skipped once. -/
theorem unignored_unignored (text : List Char) : unignored (unignored text) = unignored text := by
  cases hrest : unignored text with
  | nil => rfl
  | cons c rest => exact unignored_of_not_ignored (not_ignored_of_skipIgnored hrest) rest

/-! ## Tokens at the start of a text -/

/-- Tokens are read off the start of a text, and what is behind them is left. -/
inductive ReadsOff : List Char → List Token → List Char → Prop where
  | nil (text : List Char) : ReadsOff text [] text
  | cons {text behind rest : List Char} {token : Token} {tokens : List Token}
      (hread : Token.read (unignored text) = some (token, behind))
      (hlater : ReadsOff behind tokens rest) : ReadsOff text (token :: tokens) rest

/-- A text can be read up to its end. -/
def ReadsThrough (text : List Char) (tokens : List Token) : Prop :=
  ∃ rest, ReadsOff text tokens rest ∧ unignored rest = []

namespace ReadsOff

variable {text behind rest : List Char} {tokens later : List Token}

/-- Tokens are read off one list behind the other. -/
theorem append (h : ReadsOff text tokens behind) (hlater : ReadsOff behind later rest) :
    ReadsOff text (tokens ++ later) rest := by
  induction h with
  | nil => exact hlater
  | cons hread _ ih => exact .cons hread (ih hlater)

/-- A token is read off in front of what stops it, whatever ignored characters stand before it. -/
theorem exists_beginning_of_token {token : Token}
    (h : Token.read (unignored text) = some (token, behind)) :
    ∃ beginning, beginning ≠ [] ∧ text = beginning ++ behind ∧
      ∀ other, token.Stops other → ReadsOff (beginning ++ other) [token] other := by
  obtain ⟨gap, hgap, hskip⟩ := exists_gap text
  obtain ⟨hsource, hreadable, _⟩ := Token.read_eq_some_iff.1 h
  have hne := Token.source_ne_nil hreadable
  rw [hsource] at hgap hskip
  refine ⟨gap ++ token.source, by simp [hne], by rw [List.append_assoc, ← hgap], ?_⟩
  intro other hstops
  refine .cons ?_ (.nil other)
  rw [List.append_assoc, hskip (by simp [hne]), Token.unignored_source hreadable]
  exact Token.read_source hreadable hstops

/-- What is read off a text is a beginning of all that is read off it. -/
theorem readsThrough_behind {all : List Token} (h : ReadsOff text tokens behind)
    (hall : ReadsThrough text all) :
    ∃ later, all = tokens ++ later ∧ ReadsThrough behind later := by
  induction h generalizing all with
  | nil => exact ⟨all, rfl, hall⟩
  | cons hread _ ih =>
    obtain ⟨rest, hreads, hend⟩ := hall
    cases hreads with
    | nil =>
      rw [hend] at hread
      exact absurd hread (by simp [Token.read])
    | cons hread' hlater =>
      rw [hread] at hread'
      obtain ⟨rfl, rfl⟩ := Prod.mk.inj (Option.some.inj hread')
      obtain ⟨later, rfl, hbehind⟩ := ih ⟨rest, hlater, hend⟩
      exact ⟨later, rfl, hbehind⟩

/--
What tokens are read off does not depend on what follows, if a punctuation character is the last of
them.
-/
theorem exists_beginning {c : Char} (h : ReadsOff text (tokens ++ [.punctuator c]) rest) :
    ∃ beginning, beginning ≠ [] ∧ text = beginning ++ rest ∧
      ∀ other, ReadsOff (beginning ++ other) (tokens ++ [.punctuator c]) other := by
  induction tokens generalizing text with
  | nil =>
    obtain ⟨⟩ | ⟨hread, hlater⟩ := h
    cases hlater
    obtain ⟨beginning, hne, htext, hreads⟩ := exists_beginning_of_token hread
    exact ⟨beginning, hne, htext, fun other => hreads other trivial⟩
  | cons token tokens ih =>
    obtain ⟨⟩ | ⟨hread, hlater⟩ := h
    obtain ⟨middle, hmiddle, hbehind, hreadsLater⟩ := ih hlater
    obtain ⟨beginning, hne, htext, hreads⟩ := exists_beginning_of_token hread
    refine ⟨beginning ++ middle, by simp [hne], by rw [htext, hbehind, List.append_assoc], ?_⟩
    intro other
    have hstops := (Token.read_eq_some_iff.1 hread).2.2
    rw [hbehind] at hstops
    rw [List.append_assoc]
    exact (hreads _ (hstops.of_append hmiddle)).append (hreadsLater other)

/--
The text behind a punctuation character and the ignored characters that follow it can be replaced by
any other one.
-/
theorem replace {before : List Char} {c : Char}
    (h : ReadsOff (before ++ rest) (tokens ++ [.punctuator c]) behind)
    (hbehind : unignored behind = rest) (hne : rest ≠ []) (another : List Char) :
    ∃ left, ReadsOff (before ++ another) (tokens ++ [.punctuator c]) left ∧
      unignored left = unignored another := by
  obtain ⟨beginning, _, htext, hreads⟩ := h.exists_beginning
  obtain ⟨gap, hgap, hskip⟩ := exists_gap behind
  rw [hbehind] at hgap hskip
  rw [hgap, ← List.append_assoc] at htext
  obtain rfl := List.append_cancel_right htext
  refine ⟨gap ++ another, ?_, hskip hne another⟩
  rw [List.append_assoc]
  exact hreads _

/-- Tokens can be read off in two parts. -/
theorem exists_between (h : ReadsOff text (tokens ++ later) rest) :
    ∃ behind, ReadsOff text tokens behind ∧ ReadsOff behind later rest := by
  induction tokens generalizing text with
  | nil => exact ⟨text, .nil text, h⟩
  | cons token tokens ih =>
    obtain ⟨⟩ | ⟨hread, hlater⟩ := h
    obtain ⟨behind, hfirst, hsecond⟩ := ih hlater
    exact ⟨behind, .cons hread hfirst, hsecond⟩

/-- What is left stands at the end of the text. -/
theorem exists_append (h : ReadsOff text tokens rest) : ∃ beginning, text = beginning ++ rest := by
  induction h with
  | nil => exact ⟨[], rfl⟩
  | @cons text behind rest token tokens hread _ ih =>
    obtain ⟨gap, hgap, _⟩ := exists_gap text
    obtain ⟨beginning, rfl⟩ := ih
    rw [Token.read_eq hread] at hgap
    exact ⟨gap ++ (token.source ++ beginning), by simp [hgap]⟩

theorem ne_nil (h : ReadsOff text tokens rest) (hne : tokens ≠ []) : text ≠ [] := by
  cases h with
  | nil => exact absurd rfl hne
  | cons hread _ =>
    rintro rfl
    exact absurd hread (by simp [unignored, skipIgnored, Token.read])

/-- Tokens that are read off a text are readable. -/
theorem readable (h : ReadsOff text tokens rest) : ∀ token ∈ tokens, token.Readable := by
  induction h with
  | nil => simp
  | cons hread _ ih =>
    intro token htoken
    rcases List.mem_cons.1 htoken with rfl | htoken
    · exact (Token.read_eq_some_iff.1 hread).2.1
    · exact ih token htoken

/-- Ignored characters in front of the first token do not matter. -/
theorem of_unignored_eq {another : List Char} (heq : unignored text = unignored another)
    (hne : tokens ≠ []) (h : ReadsOff text tokens rest) : ReadsOff another tokens rest := by
  cases h with
  | nil => exact absurd rfl hne
  | cons hread hlater =>
    rw [heq] at hread
    exact .cons hread hlater

end ReadsOff

/-! ## Tokens up to the end of a text -/

/-- What can be read of a text is what can be read behind the ignored characters at its start. -/
theorem readsThrough_congr {text another : List Char} {tokens : List Token}
    (h : unignored text = unignored another) :
    ReadsThrough text tokens ↔ ReadsThrough another tokens := by
  have hone {text another : List Char} (h : unignored text = unignored another)
      (hthrough : ReadsThrough text tokens) : ReadsThrough another tokens := by
    obtain ⟨rest, hreads, hend⟩ := hthrough
    by_cases hempty : tokens = []
    · subst hempty
      cases hreads
      exact ⟨another, .nil another, by rw [← h]; exact hend⟩
    · exact ⟨rest, hreads.of_unignored_eq h hempty, hend⟩
  exact ⟨hone h, hone h.symm⟩

/-- Every token of a text that can be read up to its end is readable. -/
theorem ReadsThrough.readable {text : List Char} {tokens : List Token}
    (h : ReadsThrough text tokens) :
    ∀ token ∈ tokens, token.Readable := by
  obtain ⟨_, hreads, _⟩ := h
  exact hreads.readable

/-- All that can be read of a text is determined by it. -/
theorem ReadsThrough.unique {text : List Char} {tokens others : List Token}
    (h : ReadsThrough text tokens)
    (hothers : ReadsThrough text others) : tokens = others := by
  obtain ⟨rest, hreads, hend⟩ := h
  obtain ⟨later, rfl, _, hlater, _⟩ := hreads.readsThrough_behind hothers
  cases hlater with
  | nil => simp
  | cons hread _ =>
    rw [hend] at hread
    exact absurd hread (by simp [Token.read])

/-- A text is scanned into the tokens that are read off it up to its end. -/
theorem scans_iff_readsThrough {text : List Char} {tokens : List Token} :
    Scans text tokens ↔ ReadsThrough text tokens := by
  constructor
  · intro h
    obtain ⟨lexemes, ending, hscan, rfl⟩ := h {}
    clear h
    generalize hposition : ({} : Position) = position at hscan
    clear hposition
    fun_induction scanFrom position text generalizing lexemes with
    | case1 position text here =>
      rename_i hnil
      obtain ⟨rfl, _⟩ := Scan.mk.inj hscan
      exact ⟨text, .nil text, by rw [← skipIgnored_snd_eq position]; exact hnil⟩
    | case2 => exact absurd (Scan.mk.inj hscan).2 (by simp)
    | case3 position text here hne token behind hread later =>
      rename_i ih
      obtain ⟨rfl, hending⟩ := Scan.mk.inj hscan
      obtain ⟨rest, hreads, hend⟩ := ih _ (by rw [← hending])
      refine ⟨rest, .cons ?_ hreads, hend⟩
      rw [← skipIgnored_snd_eq position]
      exact hread
  · rintro ⟨rest, hreads, hend⟩
    induction hreads with
    | nil text =>
      intro position
      refine ⟨[], (skipIgnored false position text).1, ?_, rfl⟩
      rw [scanFrom]
      simp [skipIgnored_snd_eq, hend]
    | cons hread _ ih =>
      intro position
      have hskip := skipIgnored_eq_unignored position
      obtain ⟨lexemes, ending, hscan, htokens⟩ := ih hend _
      exact ⟨_, ending, by rw [scanFrom_of_skip (hskip _) hread, hscan], by simp [htokens]⟩

end QueryHooks.Document
