import QueryHooks.Proofs.Document.ReadingOff
import QueryHooks.Proofs.Document.ValueTokens

/-!
# Texts of values

The text of a value is made of its tokens, with blanks and commas between them, so the tokens are
read off it again if they are readable.  All tokens of a formed value are, but for that of negative
infinity, which begins like a number and is none.

Main results:

- Definition `Prints`: a text in which some tokens are written.
- Theorem `Prints.readsOff`: readable tokens are read off the text in which they are written.
- Theorem `Prints.readable_of_readsThrough`: a text can be read up to its end only if its tokens are
  readable.
- Theorem `Value.Formed.prints`: what is written of a formed value are its tokens.
- Theorem `Value.Formed.settled`: the tokens of a formed value are readable, but for negative
  infinity.
-/

namespace QueryHooks.Document

/-! ## Negative infinity -/

namespace Token

/-- The text of a negative number that is too large for the format, which is no number literal. -/
def negativeInfinity : Token :=
  .number ['-', 'i', 'n', 'f']

theorem unignored_negativeInfinity (rest : List Char) :
    unignored (negativeInfinity.source ++ rest) = negativeInfinity.source ++ rest :=
  unignored_of_not_ignored (by decide) _

/-- The text of the negative infinity is no token. -/
theorem read_negativeInfinity {rest : List Char} (h : negativeInfinity.Stops rest) :
    read (negativeInfinity.source ++ rest) = none :=
  read_number_eq_none (.inl rfl) (by simp [endsNumber, isPunctuator]) (by decide) h

end Token

/-! ## Written tokens -/

/-- A text in which some tokens are written, with blanks and commas between them. -/
inductive Prints : List Char → List Token → Prop where
  | nil : Prints [] []
  | cons {gap text : List Char} {token : Token} {tokens : List Token}
      (hgap : ∀ c ∈ gap, c = ' ' ∨ c = ',')
      (hstops : text ≠ [] → token.Stops text) (hlater : Prints text tokens) :
      Prints (gap ++ (token.source ++ text)) (token :: tokens)

/-- Spaces and commas in front of a text are ignored. -/
theorem unignored_gap {gap : List Char} (h : ∀ c ∈ gap, c = ' ' ∨ c = ',') (text : List Char) :
    unignored (gap ++ text) = unignored text := by
  induction gap with
  | nil => rfl
  | cons c gap ih =>
    have hlater := ih fun d hd => h d (List.mem_cons_of_mem _ hd)
    rw [← hlater, List.cons_append, unignored]
    rcases h c List.mem_cons_self with rfl | rfl <;> simp [skipIgnored, skipIgnored_snd_eq]

namespace Prints

variable {text behind rest : List Char} {token : Token} {tokens later all : List Token}

/-- The text of a token prints it. -/
theorem single (token : Token) : Prints token.source [token] := by
  simpa using @cons [] [] token [] (by simp) (by simp) nil

/-- A blank or a comma may stand in front of a token. -/
theorem ignored {c : Char} (h : Prints text (token :: tokens)) (hc : c = ' ' ∨ c = ',') :
    Prints (c :: text) (token :: tokens) := by
  obtain ⟨⟩ | ⟨hgap, hstops, hlater⟩ := h
  rw [← List.cons_append]
  refine .cons ?_ hstops hlater
  intro d hd
  rcases List.mem_cons.1 hd with rfl | hd
  · exact hc
  · exact hgap d hd

/-- Written tokens stand behind each other if the second text ends every token. -/
theorem append (h : Prints text tokens) (hlater : Prints behind later)
    (hstops : ∀ token : Token, token.Stops behind) : Prints (text ++ behind) (tokens ++ later) := by
  induction h with
  | nil => exact hlater
  | @cons gap text token tokens hgap hstop _ ih =>
    rw [List.append_assoc, List.append_assoc]
    refine .cons hgap (fun _ => ?_) ih
    cases text with
    | nil => exact hstops token
    | cons c text =>
      have hfirst := hstop (List.cons_ne_nil c text)
      rw [← List.append_nil (c :: text)] at hfirst
      exact hfirst.of_append (List.cons_ne_nil c text)

/-- What stops the last token of a text stops each token in the text behind it. -/
theorem stops_append (h : Prints text tokens) (hsource : ∀ other ∈ tokens, other.source ≠ [])
    (hstop : text ≠ [] → token.Stops text)
    (hlast : ∀ last ∈ (token :: tokens).getLast?, last.Stops rest) :
    token.Stops (text ++ rest) := by
  cases text with
  | nil =>
    cases tokens with
    | nil => exact hlast token rfl
    | cons next tokens =>
      generalize hnil : ([] : List Char) = text at h
      obtain ⟨⟩ | ⟨hgap, _, _⟩ := h
      have hnext := hsource next List.mem_cons_self
      simp_all
  | cons c text =>
    have hfirst := hstop (List.cons_ne_nil c text)
    rw [← List.append_nil (c :: text)] at hfirst
    exact hfirst.of_append (List.cons_ne_nil c text)

/-- The first token of a text is read behind a gap of spaces and commas. -/
theorem read_first {gap : List Char} (hgap : ∀ c ∈ gap, c = ' ' ∨ c = ',')
    (hreadable : token.Readable) (hstops : token.Stops rest) :
    Token.read (unignored (gap ++ (token.source ++ rest))) = some (token, rest) := by
  rw [unignored_gap hgap, Token.unignored_source hreadable, Token.read_source hreadable hstops]

/-- Tokens that are readable are read off the text in which they are written. -/
theorem readsOff (h : Prints text tokens) (hreadable : ∀ token ∈ tokens, token.Readable)
    (hstops : ∀ token ∈ tokens.getLast?, token.Stops rest) :
    ReadsOff (text ++ rest) tokens rest := by
  induction h with
  | nil => exact .nil rest
  | @cons gap text token tokens hgap hstop hlater ih =>
    have hbehind : ∀ other ∈ tokens, other.Readable := fun other hother =>
      hreadable other (List.mem_cons_of_mem _ hother)
    have hfirst : token.Stops (text ++ rest) :=
      hlater.stops_append (fun other hother => Token.source_ne_nil (hbehind other hother)) hstop
        hstops
    rw [List.append_assoc, List.append_assoc]
    refine .cons (read_first hgap (hreadable token List.mem_cons_self) hfirst) (ih hbehind ?_)
    intro last hlast
    cases tokens with
    | nil => exact absurd hlast (by simp)
    | cons next tokens => exact hstops last (by rwa [List.getLast?_cons_cons])

/-- Where a text can be read up to its end, the tokens in it are readable. -/
theorem readable_of_readsThrough (h : Prints text tokens)
    (hsettled : ∀ token ∈ tokens, token.Readable ∨ token = .negativeInfinity)
    (hstops : ∀ token ∈ tokens.getLast?, token.Stops rest)
    (hall : ReadsThrough (text ++ rest) all) :
    ∀ token ∈ tokens, token.Readable := by
  induction h generalizing all with
  | nil => simp
  | @cons gap text token tokens hgap hstop hlater ih =>
    have hbehind : ∀ other ∈ tokens, other.Readable ∨ other = .negativeInfinity :=
      fun other hother =>
      hsettled other (List.mem_cons_of_mem _ hother)
    have hsource : ∀ other ∈ tokens, other.source ≠ [] := by
      intro other hother
      rcases hbehind other hother with hreadable | rfl
      · exact Token.source_ne_nil hreadable
      · decide
    have hfirst : token.Stops (text ++ rest) := hlater.stops_append hsource hstop hstops
    rw [List.append_assoc, List.append_assoc] at hall
    have hreadable : token.Readable := by
      rcases hsettled token List.mem_cons_self with hreadable | rfl
      · exact hreadable
      · obtain ⟨found, hreads, hend⟩ := hall
        have hnone := Token.read_negativeInfinity hfirst
        cases hreads with
        | nil =>
          rw [unignored_gap hgap, Token.unignored_negativeInfinity] at hend
          exact absurd hend (by simp [Token.negativeInfinity, Token.source])
        | cons hread _ =>
          rw [unignored_gap hgap, Token.unignored_negativeInfinity, hnone] at hread
          exact absurd hread (by simp)
    have hread := ReadsOff.cons (read_first hgap hreadable hfirst) (.nil _)
    obtain ⟨_, _, hthrough⟩ := hread.readsThrough_behind hall
    intro other hother
    rcases List.mem_cons.1 hother with rfl | hother
    · exact hreadable
    · refine ih hbehind (fun last hlast => ?_) hthrough other hother
      cases tokens with
      | nil => exact absurd hlast (by simp)
      | cons next tokens => exact hstops last (by rwa [List.getLast?_cons_cons])

/-- Texts that are parted by a comma and a blank, and behind them a punctuation character. -/
theorem intercalate {α : Type} {c : Char} (hc : Token.isPunctuator c = true) {print : α → String}
    {tokensOf : α → List Token} {items : List α}
    (h : ∀ item ∈ items, Prints (print item).toList (tokensOf item) ∧ tokensOf item ≠ []) :
    Prints ((", ".intercalate (items.map print)).toList ++ [c])
      (items.flatMap tokensOf ++ [.punctuator c]) := by
  have hends : Token.endsNumber c = true := by simp [Token.endsNumber, hc]
  have hlast : Prints [c] [.punctuator c] := single (.punctuator c)
  induction items with
  | nil => simpa using hlast
  | cons item items ih =>
    obtain ⟨hitem, _⟩ := h item List.mem_cons_self
    have hitems := ih fun other hother => h other (List.mem_cons_of_mem _ hother)
    cases items with
    | nil => simpa using hitem.append hlast fun token => Token.stops_cons hends token []
    | cons next items =>
      obtain ⟨_, hne⟩ := h next (by simp)
      obtain ⟨first, others, hfirst⟩ := List.exists_cons_of_ne_nil hne
      rw [List.flatMap_cons, hfirst] at hitems
      have hparted := (hitems.ignored (.inl rfl)).ignored (.inr rfl)
      have hboth := hitem.append hparted fun token => Token.stops_cons (by decide) token _
      rw [List.flatMap_cons, List.flatMap_cons, hfirst]
      simpa [String.intercalate_cons_cons] using hboth

end Prints

/-! ## Values -/

namespace Value

/-- The items of a list are printed one by one. -/
theorem itemTexts_eq (items : List Value) : itemTexts items = items.map text := by
  induction items with
  | nil => rfl
  | cons item items ih => rw [itemTexts, ih, List.map_cons]

/-- The fields of an object are printed with their names. -/
theorem fieldTexts_eq (fields : List (String × Value)) :
    fieldTexts fields = fields.map fun field => field.1 ++ ": " ++ field.2.text := by
  induction fields with
  | nil => rfl
  | cons field fields ih => rw [fieldTexts, ih, List.map_cons]

/-- The token of a string has the text of the string. -/
theorem source_stringToken (value : List Char) : (stringToken value).source = stringText value := by
  rw [stringToken, stringText]
  split <;> rfl

/-- A value of a single token is written as that token. -/
theorem source_of_token {value : Value} {token : Token} (h : value.token? = some token) :
    token.source = value.text.toList := by
  cases value with
  | reference | list | object => exact absurd h (by simp [token?])
  | string value =>
    obtain rfl := Option.some.inj h
    rw [source_stringToken, text, String.toList_ofList]
  | float value =>
    cases value with
    | finite =>
      obtain rfl := Option.some.inj h
      rfl
    | infinite negative =>
      cases negative <;> obtain rfl := Option.some.inj h <;> rfl
  | boolean value => cases value <;> obtain rfl := Option.some.inj h <;> rfl
  | int | null | enumeration =>
    obtain rfl := Option.some.inj h
    rfl

/-- The text of a single value prints its token. -/
theorem prints_single {value : Value} (h : value.isSingle = true) :
    Prints value.text.toList value.tokens := by
  obtain ⟨token, htoken⟩ := exists_token h
  rw [(tokens_of_token htoken).1, ← source_of_token htoken]
  exact .single token

/-- Every value has a token. -/
theorem tokens_ne_nil (value : Value) : value.tokens ≠ [] := by
  by_cases hsingle : value.isSingle = true
  · obtain ⟨token, htoken⟩ := exists_token hsingle
    simp [(tokens_of_token htoken).1]
  · cases value with
    | reference | list | object => simp [tokens]
    | int | float | string | boolean | null | enumeration => exact absurd rfl hsingle

/-- A field is written with a colon behind its name. -/
theorem prints_field (name : String) {value : Value} (h : Prints value.text.toList value.tokens) :
    Prints (name ++ ": " ++ value.text).toList
      (.name name.toList :: .punctuator ':' :: value.tokens) := by
  obtain ⟨first, others, hfirst⟩ := List.exists_cons_of_ne_nil value.tokens_ne_nil
  rw [hfirst] at h ⊢
  have hcolon := (Prints.single (.punctuator ':')).append (h.ignored (.inl rfl))
    fun token => Token.stops_cons (by decide) token _
  have hname := (Prints.single (.name name.toList)).append hcolon
    fun token => Token.stops_cons (by decide) token _
  simpa [Token.source] using hname

/-- An opening bracket stands in front of what is written in it. -/
theorem prints_bracket {c : Char} {text : List Char} {tokens : List Token}
    (h : Prints text tokens) :
    Prints (c :: text) (.punctuator c :: tokens) :=
  @Prints.cons [] text (.punctuator c) tokens (by simp) (fun _ => trivial) h

/-- What is written of a formed value are its tokens. -/
theorem Formed.prints {room : Nat} {value : Value} (h : value.Formed room) :
    Prints value.text.toList value.tokens := by
  induction h with
  | list h ih =>
    have hitems := Prints.intercalate (c := ']') rfl fun item hitem =>
      ⟨ih item hitem, item.tokens_ne_nil⟩
    simpa [tokens, text, itemTokens_eq, itemTexts_eq] using prints_bracket (c := '[') hitems
  | object hnames hsorted h ih =>
    have hfields := Prints.intercalate (c := '\x7d') rfl fun field hfield =>
      ⟨prints_field field.1 (ih field hfield), List.cons_ne_nil _ _⟩
    simpa [tokens, text, fieldTokens_eq, fieldTexts_eq] using prints_bracket (c := '\x7b') hfields
  | int | float | string | boolean | null | enumeration => exact prints_single rfl

/-- The token of a string can be read. -/
theorem readable_stringToken (value : List Char) : (stringToken value).Readable := by
  rw [stringToken]
  split
  · exact readable_block _
  · exact readable_quoted value

/-- The tokens of a formed value are readable, but for negative infinity. -/
theorem Formed.settled {room : Nat} {value : Value} (h : value.Formed room) :
    ∀ token ∈ value.tokens, token.Readable ∨ token = .negativeInfinity := by
  induction h with
  | list h ih =>
    intro token htoken
    simp only [tokens, itemTokens_eq, List.mem_cons, List.mem_append, List.mem_flatMap,
      List.not_mem_nil, or_false] at htoken
    rcases htoken with rfl | ⟨item, hitem, htoken⟩ | rfl
    · exact .inl (by decide : Token.isPunctuator '[' = true)
    · exact ih item hitem token htoken
    · exact .inl (by decide : Token.isPunctuator ']' = true)
  | object hnames hsorted h ih =>
    intro token htoken
    simp only [tokens, fieldTokens_eq, List.mem_cons, List.mem_append, List.mem_flatMap,
      List.not_mem_nil, or_false] at htoken
    rcases htoken with rfl | ⟨field, hfield, rfl | rfl | htoken⟩ | rfl
    · exact .inl (by decide : Token.isPunctuator '\x7b' = true)
    · exact .inl (hnames field hfield)
    · exact .inl (by decide : Token.isPunctuator ':' = true)
    · exact ih field hfield token htoken
    · exact .inl (by decide : Token.isPunctuator '\x7d' = true)
  | @float _ value hnormal =>
    cases value with
    | finite negative significand exponent =>
      exact List.forall_mem_singleton.2 (.inl (readable_text_finite (Prod.ext rfl rfl)))
    | infinite negative =>
      cases negative with
      | false => exact List.forall_mem_singleton.2 (.inl (by decide : IsName "inf".toList))
      | true => exact List.forall_mem_singleton.2 (.inr rfl)
  | @int _ value hfits =>
    refine List.forall_mem_singleton.2 (.inl ?_)
    rw [toList_toString]
    exact readable_wholeText _ _
  | string _ value => exact List.forall_mem_singleton.2 (.inl (readable_stringToken value))
  | boolean _ value =>
    cases value with
    | true => exact List.forall_mem_singleton.2 (.inl (by decide : IsName "true".toList))
    | false => exact List.forall_mem_singleton.2 (.inl (by decide : IsName "false".toList))
  | null => exact List.forall_mem_singleton.2 (.inl (by decide : IsName "null".toList))
  | enumeration _ hname => exact List.forall_mem_singleton.2 (.inl hname)

end Value

end QueryHooks.Document
