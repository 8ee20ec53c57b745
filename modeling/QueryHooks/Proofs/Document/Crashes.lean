import Mathlib
import QueryHooks.Document.Parser
import QueryHooks.Proofs.Document.BlockLines
import QueryHooks.Proofs.Document.Segments

/-!
# Texts that end the program

Reading a text ends the program if a block string stands where a string may stand and its lines
cannot be cut: the indentation that they have in common would end inside of a character of one of
them.  Nothing behind such a string is read, so it does not matter whether the text would be a
document.

Main results:

- Theorem `mem_dropOuter_iff`: which lines of a block string are kept.
- Definition `BreaksUp`: a line that is kept would be cut inside of a character.
- Theorem `decodeBlock?_eq_none_iff`: only then does a block string have no value.
- Definition `CrashesAt`: the first block string of a text that cannot be cut where it stands.
- Theorem `parse_eq_crashed_iff`: only at such a string does reading a text end the program.
-/

namespace QueryHooks.Document

/-! ## Lines that are kept -/

section Kept

variable {α : Type} {p : α → Bool} {element : α}

/--
An element with one in front of it that is not left out, or that is not left out itself, stays.
-/
theorem exists_dropWhile_concat {before : List α}
    (h : ∃ other ∈ before ++ [element], p other = false) :
    ∃ left, (before ++ [element]).dropWhile p = left ++ [element] := by
  induction before with
  | nil =>
    obtain ⟨other, hother, hp⟩ := h
    obtain rfl := List.mem_singleton.1 hother
    exact ⟨[], by simp [hp]⟩
  | cons first before ih =>
    rw [List.cons_append, List.dropWhile_cons]
    split
    · rename_i hfirst
      refine ih ?_
      obtain ⟨other, hother, hp⟩ := h
      rcases List.mem_cons.1 hother with rfl | hother
      · rw [hfirst] at hp
        exact absurd hp (by simp)
      · exact ⟨other, hother, hp⟩
    · exact ⟨first :: before, rfl⟩

/-- Dropping stops inside a list of which one element is kept, whatever stands behind it. -/
theorem exists_dropWhile_append {before : List α}
    (h : ∃ other ∈ before ++ [element], p other = false)
    (behind : List α) :
    ∃ left, (before ++ element :: behind).dropWhile p = left ++ element :: behind := by
  obtain ⟨left, hleft⟩ := exists_dropWhile_concat h
  refine ⟨left, ?_⟩
  rw [List.append_cons, List.dropWhile_append, hleft, if_neg (by simp), ← List.append_cons]

/-- What stays at the front of a list begins with an element that is not left out. -/
theorem exists_of_dropWhile_eq {elements before behind : List α}
    (h : elements.dropWhile p = before ++ element :: behind) :
    ∃ other ∈ before ++ [element], p other = false := by
  have hhead := List.head?_dropWhile_not p elements
  rw [h] at hhead
  cases before with
  | nil => exact ⟨element, by simp, by simpa using hhead⟩
  | cons first before => exact ⟨first, by simp, by simpa using hhead⟩

/--
An element is kept if neither it and all in front of it nor it and all behind it are left out.
-/
theorem mem_dropOuter_iff {elements : List α} :
    element ∈ dropOuter p elements ↔
      ∃ before behind, elements = before ++ element :: behind ∧
        (∃ other ∈ before ++ [element], p other = false) ∧
        ∃ other ∈ element :: behind, p other = false := by
  rw [dropOuter, List.mem_reverse]
  constructor
  · intro h
    obtain ⟨after, between, hinner⟩ := List.append_of_mem h
    -- What was dropped at the end, put back behind the element.
    obtain ⟨last, hmiddle⟩ : ∃ last,
        elements.dropWhile p = between.reverse ++ element :: (after.reverse ++ last) := by
      have hsplit := List.takeWhile_append_dropWhile (p := p) (l := (elements.dropWhile p).reverse)
      rw [hinner] at hsplit
      exact ⟨_, by simpa using (congrArg List.reverse hsplit).symm⟩
    refine ⟨elements.takeWhile p ++ between.reverse, after.reverse ++ last, ?_, ?_, ?_⟩
    · rw [List.append_assoc, ← hmiddle, List.takeWhile_append_dropWhile]
    · obtain ⟨other, hother, hp⟩ := exists_of_dropWhile_eq hmiddle
      rw [List.append_assoc]
      exact ⟨other, List.mem_append_right _ hother, hp⟩
    · obtain ⟨other, hother, hp⟩ := exists_of_dropWhile_eq hinner
      have hmem : other ∈ element :: after.reverse := by simpa [or_comm] using hother
      exact ⟨other, List.mem_append_left last hmem, hp⟩
  · rintro ⟨before, behind, rfl, hbefore, hbehind⟩
    obtain ⟨left, hleft⟩ := exists_dropWhile_append hbefore behind
    have hreversed : ∃ other ∈ behind.reverse ++ [element], p other = false := by
      simpa [or_comm] using hbehind
    obtain ⟨right, hright⟩ := exists_dropWhile_append hreversed left.reverse
    rw [hleft, List.reverse_append, List.reverse_cons, List.append_assoc, List.singleton_append,
      hright]
    simp

end Kept

/-! ## Lines that cannot be cut -/

/--
A line of a block string that cannot be cut.  It is not the first line, and lines that are not blank
stand at or in front of it and at or behind it, so it is kept.  The least indentation of the lines
behind the first one is not longer than the line, but no character of the line ends where it does.
-/
def BreaksUp (chars : List Char) : Prop :=
  ∃ first before line behind common, Text.lines chars = first :: (before ++ line :: behind) ∧
    (∃ row ∈ first :: before ++ [line], Text.isAllBlank row = false) ∧
    (∃ row ∈ line :: behind, Text.isAllBlank row = false) ∧
    commonIndentation? (before ++ line :: behind) = some common ∧ common ≤ byteLength line ∧
    ∀ cut rest, line = cut ++ rest → byteLength cut ≠ common

/-- A line cannot be cut where it is long enough and no character ends at the cut. -/
theorem cutBytes?_eq_none_iff {count : Nat} {line : List Char} :
    cutBytes? count line = none ↔
      count ≤ byteLength line ∧ ∀ cut rest, line = cut ++ rest → byteLength cut ≠ count := by
  rw [cutBytes?]
  split
  · simp; omega
  · rename_i hlong
    rw [Option.eq_none_iff_forall_ne_some]
    simp only [Ne, dropBytes?_eq_some_iff, not_exists, not_and]
    constructor
    · exact fun h => ⟨Nat.le_of_not_lt hlong, fun cut rest hline => h rest cut hline⟩
    · exact fun h rest cut hline => h.2 cut rest hline

/-- There are no results exactly if one of them is missing. -/
theorem mapM_eq_none_iff {α β : Type} {f : α → Option β} {elements : List α} :
    elements.mapM f = none ↔ ∃ element ∈ elements, f element = none := by
  induction elements with
  | nil => simp
  | cons element elements ih =>
    rw [List.mapM_cons, List.exists_mem_cons_iff, ← ih]
    cases f element with
    | none => simp
    | some result => cases elements.mapM f <;> simp

/--
The lines that are kept of a block string, but for the first line, and what is to be cut from them.
-/
theorem mem_dropOuter_blockRows_iff {first : List Char} {later : List (List Char)} {common : Nat}
    {line : List Char} (hcommon : common ≠ 0) :
    (common, line) ∈ dropOuter (fun row => Text.isAllBlank row.2)
        ((0, first) :: later.map fun row => (common, row)) ↔
      ∃ before behind, later = before ++ line :: behind ∧
        (∃ row ∈ first :: before ++ [line], Text.isAllBlank row = false) ∧
        ∃ row ∈ line :: behind, Text.isAllBlank row = false := by
  rw [mem_dropOuter_iff]
  constructor
  · rintro ⟨rowsBefore, rowsBehind, hrows, hbefore, hbehind⟩
    cases rowsBefore with
    | nil => exact absurd (congrArg Prod.fst (List.cons.inj hrows).1).symm hcommon
    | cons row rowsBefore =>
      obtain ⟨rfl, htail⟩ := List.cons.inj hrows
      obtain ⟨before, rest, rfl, rfl, hrest⟩ := List.map_eq_append_iff.1 htail
      obtain ⟨line', behind, rfl, hline, rfl⟩ := List.map_eq_cons_iff.1 hrest
      obtain rfl := congrArg Prod.snd hline
      exact ⟨before, behind, rfl, by simpa using hbefore, by simpa using hbehind⟩
  · rintro ⟨before, behind, rfl, hbefore, hbehind⟩
    exact ⟨(0, first) :: before.map fun row => (common, row), behind.map fun row => (common, row),
      by simp, by simpa using hbefore, by simpa using hbehind⟩

/-- A block string has no value exactly if one of its lines cannot be cut. -/
theorem decodeBlock?_eq_none_iff {chars : List Char} :
    decodeBlock? chars = none ↔ BreaksUp chars := by
  have hvalue : decodeBlock? chars = none ↔
      ∃ row ∈ dropOuter (fun row => Text.isAllBlank row.2) (blockRows chars),
        cutBytes? row.1 row.2 = none := by
    rw [← mapM_eq_none_iff, decodeBlock?]
    cases List.mapM (fun row : Nat × List Char => cutBytes? row.1 row.2)
      (dropOuter (fun row => Text.isAllBlank row.2) (blockRows chars)) <;> simp
  rw [hvalue, blockRows, BreaksUp]
  cases Text.lines chars with
  | nil => simp [dropOuter]
  | cons first later =>
    dsimp only
    constructor
    · rintro ⟨⟨count, line⟩, hmem, hcut⟩
      obtain ⟨hlong, hends⟩ := cutBytes?_eq_none_iff.1 hcut
      -- Nothing is cut from the first line, which cannot go wrong.
      have hcount : count ≠ 0 := fun hzero => hends [] line rfl hzero.symm
      have hsame : count = (commonIndentation? later).getD 0 := by
        rcases List.mem_cons.1 ((dropOuter_sublist _ _).subset hmem) with hfirst | hlater
        · exact absurd (congrArg Prod.fst hfirst) hcount
        · obtain ⟨_, _, hrow⟩ := List.mem_map.1 hlater
          exact (congrArg Prod.fst hrow).symm
      rw [← hsame] at hmem
      obtain ⟨before, behind, rfl, hbefore, hbehind⟩ := (mem_dropOuter_blockRows_iff hcount).1 hmem
      obtain ⟨row, hrow, hblank⟩ := hbehind
      obtain ⟨least, hleast⟩ :=
        exists_commonIndentation? (List.mem_append_right before hrow) hblank
      rw [hleast, Option.getD_some] at hsame
      exact ⟨first, before, line, behind, least, rfl, hbefore, ⟨row, hrow, hblank⟩, hleast,
        hsame ▸ hlong, hsame ▸ hends⟩
    · rintro ⟨_, before, line, behind, common, hlines, hbefore, hbehind, hleast, hlong, hends⟩
      obtain ⟨rfl, rfl⟩ := List.cons.inj hlines
      have hcommon : common ≠ 0 := fun hzero => hends [] line rfl hzero.symm
      rw [hleast, Option.getD_some]
      exact ⟨(common, line),
        (mem_dropOuter_blockRows_iff hcommon).2 ⟨before, behind, rfl, hbefore, hbehind⟩,
        cutBytes?_eq_none_iff.2 ⟨hlong, hends⟩⟩

/-! ## Block strings that are not taken -/

/-- The broken tokens are the block strings that break up. -/
theorem isBroken_iff {token : Token} :
    token.isBroken = true ↔ ∃ chars, token = .block chars ∧ BreaksUp chars := by
  cases token with
  | block chars => simp [Token.isBroken, Option.isNone_iff_eq_none, decodeBlock?_eq_none_iff]
  | punctuator | ellipsis | name | number | string => simp [Token.isBroken]

section Taken

variable (chars : List Char)

/-- A block string is taken as a value where a string is, if it can be cut. -/
theorem ValueReader.isSome_step_block (references : Bool) (reader : ValueReader) :
    (reader.step references (.block chars)).isSome =
      ((reader.step references (.string [])).isSome && !Token.isBroken (.block chars)) := by
  cases reader with
  | value frames =>
    simp [ValueReader.step, ValueReader.stepValue, Value.ofToken?, decodeQuoted?, Token.isBroken]
  | reference | fieldName | fieldColon => rfl

/-- Neither kind of string stands where directives may stand. -/
theorem SelectionReader.stepDirectives_of_string (depth : Nat) (carrier : Carrier) :
    stepDirectives depth carrier (.string []) = none ∧
      stepDirectives depth carrier (.block chars) = none := by
  cases carrier <;> exact ⟨rfl, rfl⟩

/-- A selection takes a block string where it takes any string, unless this breaks up. -/
theorem SelectionReader.isSome_step_block (place : SelectionReader.Place) :
    (SelectionReader.step place (.block chars)).isSome =
      ((SelectionReader.step place (.string [])).isSome && !Token.isBroken (.block chars)) := by
  have hdirectives := stepDirectives_of_string chars
  obtain ⟨depth, reader⟩ := place
  cases reader with
  | argumentValue carrier reader =>
    simp [SelectionReader.step, ValueReader.isSome_step_block]
  | argumentName carrier first => cases first <;> rfl
  | directives | arguments | fieldAlias | fragment =>
    simp [SelectionReader.step, SelectionReader.stepArguments, SelectionReader.stepFragment,
      hdirectives]
  | directiveName | argumentColon | selection | fieldName | typeCondition => rfl

/-- A block string is taken where a string may stand, if it can be cut. -/
theorem HeadReader.isSome_step_block (reader : HeadReader) (position : Position) :
    (reader.step ⟨position, .block chars⟩).isSome =
      (reader.takesString && !Token.isBroken (.block chars)) := by
  rw [HeadReader.takesString]
  cases reader with
  | variableDefault definition name type reader =>
    simp [HeadReader.step, ValueReader.isSome_step_block]
  | body definition place =>
    simp [HeadReader.step, HeadReader.stepBody, SelectionReader.isSome_step_block]
  | operationName definition | variableList definition =>
    simp [HeadReader.step, HeadReader.stepVariables, HeadReader.stepBody,
      SelectionReader.isSome_step_block]
  | variableType definition name reader =>
    cases reader with
    | opening depth => rfl
    | closing depth type marked => cases depth <;> cases marked <;> rfl
  | outside | dollar | variableName | variableColon | fragmentName | fragmentOn | fragmentType =>
    rfl

end Taken

/-- No reader takes a block string that cannot be cut. -/
theorem HeadReader.step_of_isBroken (reader : HeadReader) {lexeme : Lexeme}
    (h : lexeme.token.isBroken = true) : reader.step lexeme = none := by
  obtain ⟨position, token⟩ := lexeme
  obtain ⟨chars, rfl, _⟩ := isBroken_iff.1 h
  have hnone := reader.isSome_step_block chars position
  rw [h, Bool.not_true, Bool.and_false] at hnone
  exact Option.isNone_iff_eq_none.1 (by simpa using hnone)

/-! ## Runs that end the program -/

namespace Parser

variable {parser : Parser} {lexemes : List Lexeme} {stop : Stop}

/-- A run stops at the first lexeme that is not taken. -/
theorem run_eq_error_iff :
    parser.run lexemes = .error stop ↔
      ∃ taken lexeme rest between, lexemes = taken ++ lexeme :: rest ∧
        parser.run taken = .ok between ∧ between.step lexeme = .error stop := by
  constructor
  · intro h
    induction lexemes generalizing parser with
    | nil => exact absurd h (by simp)
    | cons first lexemes ih =>
      rw [run_cons] at h
      cases hstep : parser.step first with
      | error other =>
        rw [hstep] at h
        obtain rfl := Except.error.inj h
        exact ⟨[], first, lexemes, parser, rfl, rfl, hstep⟩
      | ok next =>
        rw [hstep] at h
        obtain ⟨taken, lexeme, rest, between, rfl, hrun, hlexeme⟩ := ih h
        exact ⟨first :: taken, lexeme, rest, between, rfl,
          run_cons_eq_ok_iff.2 ⟨next, hstep, hrun⟩, hlexeme⟩
  · rintro ⟨taken, lexeme, rest, between, rfl, hrun, hlexeme⟩
    calc
      parser.run (taken ++ lexeme :: rest) = between.run (lexeme :: rest) := by
        rw [run_append, hrun]
        rfl
      _ = .error stop := by
        rw [run_cons, hlexeme]
        rfl

/--
A lexeme ends the program if it is a block string that cannot be cut, where a string may stand.
-/
theorem step_eq_crashed_iff {lexeme : Lexeme} :
    parser.step lexeme = .error .crashed ↔
      lexeme.token.isBroken = true ∧ parser.reader.takesString = true := by
  rw [step]
  constructor
  · intro h
    split at h
    · have hstop := Except.error.inj h
      rw [stopAt] at hstop
      split at hstop
      · rename_i hbroken
        simpa using hbroken
      · exact absurd hstop (by simp)
    all_goals exact absurd h (by simp)
  · rintro ⟨hbroken, htakes⟩
    rw [HeadReader.step_of_isBroken _ hbroken]
    simp [stopAt, hbroken, htakes]

end Parser

/--
A block string that cannot be cut, behind lexemes that are all taken, and where a string may stand.
This is about the lexemes of a text up to the first one that is malformed or a bracket that nests
too deep.
-/
def CrashesAt (text : String) (position : Position) (chars : List Char) : Prop :=
  ∃ taken rest parser,
    (scan text.toList).lexemes = taken ++ ⟨position, .block chars⟩ :: rest ∧
    Parser.run {} taken = .ok parser ∧ parser.reader.takesString = true ∧ BreaksUp chars

/-- Reading a text ends the program exactly if it comes to a block string that cannot be cut. -/
theorem parse_eq_crashed_iff {text : String} :
    parse text = .error .crashed ↔ ∃ position chars, CrashesAt text position chars := by
  have hrun : parse text = .error .crashed ↔
      Parser.run {} (scan text.toList).lexemes = .error .crashed := by
    rw [parse]
    cases Parser.run {} (scan text.toList).lexemes with
    | error stop => simp [bind, Except.bind]
    | ok parser =>
      simp only [bind, Except.bind, reduceCtorEq, iff_false]
      split <;> simp [throw, throwThe, MonadExceptOf.throw, pure, Except.pure]
  rw [hrun, Parser.run_eq_error_iff]
  constructor
  · rintro ⟨taken, ⟨position, token⟩, rest, parser, hlexemes, htaken, hstep⟩
    obtain ⟨hbroken, htakes⟩ := Parser.step_eq_crashed_iff.1 hstep
    obtain ⟨chars, rfl, hbreaks⟩ := isBroken_iff.1 hbroken
    exact ⟨position, chars, taken, rest, parser, hlexemes, htaken, htakes, hbreaks⟩
  · rintro ⟨position, chars, taken, rest, parser, hlexemes, htaken, htakes, hbreaks⟩
    exact ⟨taken, _, rest, parser, hlexemes, htaken,
      Parser.step_eq_crashed_iff.2 ⟨isBroken_iff.2 ⟨chars, rfl, hbreaks⟩, htakes⟩⟩

end QueryHooks.Document
