import QueryHooks.Proofs.Document.Scanning

/-!
# Nesting of tokens

Whether a scan is cut off in front of a bracket depends on its tokens alone: each of them leaves
room for some more brackets.  Tokens in which every bracket is closed leave as much room as there
was before.

Main results:

- Definition `NestsWithin`: some tokens need no more than a number of brackets.
- Theorem `limitLexemes_of_room`: lexemes are all kept if there is room for their brackets.
- Theorem `scan_of_nestsWithin`: a text is scanned up to its end if its tokens nest within the
  limit.
-/

namespace QueryHooks.Document

/-! ## Room for brackets -/

/-- Whether a character opens a bracket. -/
def opensBracket (c : Char) : Prop :=
  c = '(' ∨ c = '[' ∨ c = '\x7b'

/-- Whether a character closes a bracket. -/
def closesBracket (c : Char) : Prop :=
  c = ')' ∨ c = ']' ∨ c = '\x7d'

instance (c : Char) : Decidable (opensBracket c) :=
  inferInstanceAs (Decidable (c = '(' ∨ c = '[' ∨ c = '\x7b'))

instance (c : Char) : Decidable (closesBracket c) :=
  inferInstanceAs (Decidable (c = ')' ∨ c = ']' ∨ c = '\x7d'))

/-- No bracket both opens and closes. -/
theorem not_closesBracket_of_opensBracket {c : Char} (h : opensBracket c) : ¬closesBracket c := by
  rcases h with rfl | rfl | rfl <;> decide

/--
How many brackets can be opened behind a token, unless it opens one for which there is no room.
-/
def Token.room (left : Nat) : Token → Option Nat
  | .punctuator c =>
    if opensBracket c then
      if left = 0 then none else some (left - 1)
    else if closesBracket c then some (left + 1)
    else some left
  | _ => some left

/-- A lexeme is kept if there is room for the bracket that it opens. -/
theorem limitLexemes_cons (left : Nat) (lexeme : Lexeme) (lexemes : List Lexeme) :
    limitLexemes left (lexeme :: lexemes) =
      match lexeme.token.room left with
      | none => ([], some lexeme.position)
      | some behind =>
        (lexeme :: (limitLexemes behind lexemes).1, (limitLexemes behind lexemes).2) := by
  obtain ⟨position, token⟩ := lexeme
  rw [limitLexemes.eq_def]
  cases token with
  | punctuator c =>
    rw [Token.room]
    by_cases hopens : opensBracket c
    · have hc : c = '(' ∨ c = '[' ∨ c = '\x7b' := hopens
      cases left with
      | zero => simp [hopens, hc]
      | succ left => simp [hopens, hc]
    · have hc : ¬(c = '(' ∨ c = '[' ∨ c = '\x7b') := hopens
      by_cases hcloses : closesBracket c
      · have hd : c = ')' ∨ c = ']' ∨ c = '\x7d' := hcloses
        simp [hopens, hcloses, hc, hd]
      · have hd : ¬(c = ')' ∨ c = ']' ∨ c = '\x7d') := hcloses
        simp [hopens, hcloses, hc, hd]
  | ellipsis | name | number | string | block => rfl

/-- Lexemes for whose brackets there is room are kept in front of whatever follows them. -/
theorem limitLexemes_append {left behind : Nat} {lexemes : List Lexeme} (later : List Lexeme)
    (h : (lexemes.map Lexeme.token).foldlM Token.room left = some behind) :
    limitLexemes left (lexemes ++ later) =
      (lexemes ++ (limitLexemes behind later).1, (limitLexemes behind later).2) := by
  induction lexemes generalizing left with
  | nil =>
    obtain rfl := Option.some.inj h
    rfl
  | cons lexeme lexemes ih =>
    rw [List.map_cons, List.foldlM_cons] at h
    obtain ⟨between, hroom, hlater⟩ := Option.bind_eq_some_iff.1 h
    rw [List.cons_append, limitLexemes_cons, hroom]
    simp only [ih hlater, List.cons_append]

/-- Lexemes are all kept if there is room for each bracket that they open. -/
theorem limitLexemes_of_room {left behind : Nat} {lexemes : List Lexeme}
    (h : (lexemes.map Lexeme.token).foldlM Token.room left = some behind) :
    limitLexemes left lexemes = (lexemes, none) := by
  simpa [limitLexemes] using limitLexemes_append [] h

/-- Where no bracket nests too deep, there is room for all of them. -/
theorem exists_room_of_limitLexemes {left : Nat} {lexemes : List Lexeme}
    (h : (limitLexemes left lexemes).2 = none) :
    ∃ behind, (lexemes.map Lexeme.token).foldlM Token.room left = some behind := by
  induction lexemes generalizing left with
  | nil => exact ⟨left, rfl⟩
  | cons lexeme lexemes ih =>
    rw [limitLexemes_cons] at h
    cases hroom : lexeme.token.room left with
    | none => simp [hroom] at h
    | some between =>
      simp only [hroom] at h
      obtain ⟨behind, hbehind⟩ := ih h
      exact ⟨behind, by rw [List.map_cons, List.foldlM_cons, hroom]; exact hbehind⟩

/-! ## Tokens with closed brackets -/

/--
The tokens close every bracket they open, and of these no more than `depth` are open at a time.
-/
def NestsWithin (depth : Nat) (tokens : List Token) : Prop :=
  ∀ left, depth ≤ left → tokens.foldlM Token.room left = some left

namespace NestsWithin

variable {depth : Nat} {tokens later : List Token}

theorem nil : NestsWithin depth [] := by
  intro left _
  rfl

/-- Tokens that nest within a depth nest within any greater one. -/
theorem mono {limit : Nat} (h : NestsWithin depth tokens) (hlimit : depth ≤ limit) :
    NestsWithin limit tokens := by
  intro left hleft
  exact h left (by omega)

/-- Two lists of tokens that nest within a depth do so one behind the other. -/
theorem append (h : NestsWithin depth tokens) (hlater : NestsWithin depth later) :
    NestsWithin depth (tokens ++ later) := by
  intro left hleft
  rw [List.foldlM_append, h left hleft]
  exact hlater left hleft

theorem cons_name {chars : List Char} (h : NestsWithin depth tokens) :
    NestsWithin depth (.name chars :: tokens) := by
  intro left hleft
  rw [List.foldlM_cons]
  exact h left hleft

/-- A punctuator that is no bracket needs no depth. -/
theorem cons_punctuator {c : Char} (h : NestsWithin depth tokens) (hopens : ¬opensBracket c)
    (hcloses : ¬closesBracket c) : NestsWithin depth (.punctuator c :: tokens) := by
  intro left hleft
  rw [List.foldlM_cons, Token.room, if_neg hopens, if_neg hcloses]
  exact h left hleft

/-- A pair of brackets takes the room of one. -/
theorem bracket {c d : Char} (h : NestsWithin depth tokens) (hopens : opensBracket c)
    (hcloses : closesBracket d) :
    NestsWithin (depth + 1) (.punctuator c :: tokens ++ [.punctuator d]) := by
  intro left hleft
  have hleft0 : left ≠ 0 := by omega
  have hnot : ¬opensBracket d := fun hd => not_closesBracket_of_opensBracket hd hcloses
  rw [List.cons_append, List.foldlM_cons, Token.room, if_pos hopens, if_neg hleft0]
  change (tokens ++ [Token.punctuator d]).foldlM Token.room (left - 1) = some left
  rw [List.foldlM_append, h (left - 1) (by omega)]
  change Token.room (left - 1) (.punctuator d) >>= pure = some left
  rw [Token.room, if_neg hnot, if_pos hcloses, Nat.sub_add_cancel (by omega)]
  rfl

/-- What is printed for each of some items nests as deep as the deepest of them. -/
theorem flatMap {α : Type} {items : List α} {print : α → List Token}
    (h : ∀ item ∈ items, NestsWithin depth (print item)) :
    NestsWithin depth (items.flatMap print) := by
  induction items with
  | nil => exact nil
  | cons item items ih =>
    rw [List.flatMap_cons]
    refine (h item List.mem_cons_self).append (ih ?_)
    intro other hother
    exact h other (List.mem_cons_of_mem _ hother)

end NestsWithin

/-! ## Scans -/

/-- A text whose tokens nest within the limit is scanned into these tokens up to its end. -/
theorem scan_of_nestsWithin {text : List Char} {tokens : List Token} (h : Scans text tokens)
    (hnests : NestsWithin maxNesting tokens) :
    ∃ lexemes ending, scan text = ⟨lexemes, .endOfText ending⟩ ∧
      lexemes.map Lexeme.token = tokens := by
  obtain ⟨lexemes, ending, hscan, htokens⟩ := h {}
  refine ⟨lexemes, ending, ?_, htokens⟩
  have hroom := hnests maxNesting (Nat.le_refl _)
  rw [← htokens] at hroom
  rw [scan, hscan, Scan.limitNesting, limitLexemes_of_room hroom]

end QueryHooks.Document
