import Mathlib
import QueryHooks.Document.StringValue
import QueryHooks.Document.ValueText
import QueryHooks.Proofs.Document.TokenTexts
import QueryHooks.Proofs.Text.Returns
import QueryHooks.Text.Separated

/-!
# Lines of block strings

What is read of a block string that is written from some lines.  Reading undoes the escape of three
quotes and the indentation by two blanks; it leaves out the blank lines at the start and at the end,
it cuts off the margin that all other lines have in common, and it takes away a carriage return at
the end of a line.

Main results:

- Theorem `unescapeQuotes_escapeQuotes`: the escape of three quotes is undone.
- Theorem `readable_block`: the three quotes at the end of the block are the first ones that end it.
- Theorem `dropBytes?_eq_some_iff`: what is cut from a text, if a character ends where the cut does.
- Theorem `decodeBlock?_blockChars`: what a block string with some lines is read as.
-/

namespace QueryHooks.Document

/-! ## Three quotes in a line -/

theorem escapeQuotes_cons {c : Char} (h : c ≠ '"') (line : List Char) :
    escapeQuotes (c :: line) = c :: escapeQuotes line := by
  rw [escapeQuotes]
  simp [h]

/-- A quote stands first in the escaped line only if it does so in the line. -/
theorem eq_quote_cons_of_escapeQuotes {line rest : List Char}
    (h : escapeQuotes line = '"' :: rest) :
    ∃ later, line = '"' :: later ∧ rest = escapeQuotes later := by
  fun_cases escapeQuotes line with
  | case1 later => simp [escapeQuotes] at h
  | case2 c later hquotes =>
    rw [escapeQuotes.eq_2 _ _ hquotes] at h
    obtain ⟨rfl, rfl⟩ := List.cons.inj h
    exact ⟨later, rfl, rfl⟩
  | case3 => simp [escapeQuotes] at h

/-- The escape of three quotes is undone. -/
@[simp]
theorem unescapeQuotes_escapeQuotes (line : List Char) :
    unescapeQuotes (escapeQuotes line) = line := by
  fun_induction escapeQuotes line with
  | case1 later ih => rw [unescapeQuotes, ih]
  | case2 c later hquotes ih =>
    rw [unescapeQuotes, ih]
    rintro rest rfl hescape
    obtain ⟨x, hx, hrest⟩ := eq_quote_cons_of_escapeQuotes hescape
    obtain ⟨y, hy, hrest'⟩ := eq_quote_cons_of_escapeQuotes hrest.symm
    obtain ⟨z, hz, _⟩ := eq_quote_cons_of_escapeQuotes hrest'.symm
    subst hx hy hz
    simp [escapeQuotes] at hescape
  | case3 => rfl

/-- Lines with the same escaped text are the same, since no line ends inside of an escape. -/
theorem escapeQuotes_inj {line other : List Char} (h : escapeQuotes line = escapeQuotes other) :
    line = other := by
  rw [← unescapeQuotes_escapeQuotes line, h, unescapeQuotes_escapeQuotes]

/-- Escaping brings in backslashes and nothing else. -/
theorem mem_of_mem_escapeQuotes {c : Char} {line : List Char} (h : c ∈ escapeQuotes line) :
    c ∈ line ∨ c = '\\' := by
  fun_induction escapeQuotes line with
  | case1 later ih => simp at h ⊢; tauto
  | case2 d later hquotes ih => simp at h ⊢; tauto
  | case3 => exact .inl h

/-- A line ends with the same character when it is escaped: the backslash stands in front. -/
theorem getLast?_escapeQuotes (line : List Char) :
    (escapeQuotes line).getLast? = line.getLast? := by
  fun_induction escapeQuotes line with
  | case1 later ih => simp [List.getLast?_cons, ih]
  | case2 d later hquotes ih => simp [List.getLast?_cons, ih]
  | case3 => rfl

/-- A character other than a quote does not make three quotes of what stands in front of it. -/
theorem ne_double_append_cons {c : Char} {line : List Char} (hc : c ≠ '"')
    (h : ∀ rest, line ≠ '"' :: '"' :: rest) (behind rest : List Char) :
    line ++ c :: behind ≠ '"' :: '"' :: rest := by
  match line with
  | [] => simp [hc]
  | [_] => simp [hc]
  | a :: b :: line =>
    intro hrest
    simp only [List.cons_append, List.cons.injEq] at hrest
    exact h line (by rw [hrest.1, hrest.2.1])

/-- What is escaped does not begin with two quotes, unless the line itself does. -/
theorem escapeQuotes_ne_double {line : List Char} (h : ∀ rest, line ≠ '"' :: '"' :: rest)
    (rest : List Char) :
    escapeQuotes line ≠ '"' :: '"' :: rest := by
  intro hescape
  obtain ⟨x, hx, hrest⟩ := eq_quote_cons_of_escapeQuotes hescape
  obtain ⟨y, hy, _⟩ := eq_quote_cons_of_escapeQuotes hrest.symm
  exact h y (by rw [hx, hy])

/-- A carriage return at the end of a line is not escaped. -/
theorem escapeQuotes_concat_return (line : List Char) :
    escapeQuotes (line ++ ['\r']) = escapeQuotes line ++ ['\r'] := by
  fun_induction escapeQuotes line with
  | case1 later ih => simp [escapeQuotes, ih]
  | case2 d later hquotes ih =>
    rw [List.cons_append, escapeQuotes.eq_2, ih]
    · rfl
    · rintro rest rfl
      exact ne_double_append_cons (by decide) (fun rest => hquotes rest rfl) _ _
  | case3 => rfl

/-! ## The end of a block string -/

/-- A line that is written in a block string does not end it. -/
theorem readBlock_escapeQuotes (afterBackslash : Bool) (line rest : List Char) :
    Token.readBlock afterBackslash (escapeQuotes line ++ '\n' :: rest) =
      (Token.readBlock false rest).map fun found =>
      (escapeQuotes line ++ '\n' :: found.1, found.2) := by
  fun_induction escapeQuotes line generalizing afterBackslash with
  | case1 later ih =>
    have hthree : Token.readBlock true ('"' :: '"' :: '"' :: (escapeQuotes later ++ '\n' :: rest)) =
        (Token.readBlock false (escapeQuotes later ++ '\n' :: rest)).map fun found =>
          ('"' :: '"' :: '"' :: found.1, found.2) := by
      rw [Token.readBlock, if_pos rfl]
    rw [List.cons_append, Token.readBlock.eq_2 _ _ _ (by simp), beq_self_eq_true]
    simp only [List.cons_append]
    rw [hthree, ih, Option.map_map, Option.map_map]
    rfl
  | case2 d later hquotes ih =>
    have hnot : ∀ tail, d = '"' → escapeQuotes later ++ '\n' :: rest = '"' :: '"' :: tail →
        False := by
      rintro tail rfl
      have hlater : ∀ tail, later ≠ '"' :: '"' :: tail := fun tail => hquotes tail rfl
      exact ne_double_append_cons (by decide) (escapeQuotes_ne_double hlater) _ _
    rw [List.cons_append, Token.readBlock.eq_2 _ _ _ hnot, ih, Option.map_map]
    rfl
  | case3 =>
    rw [List.nil_append, Token.readBlock.eq_2 _ _ _ (by simp)]
    rfl

/-- A line as it is written in a block string, without its line feed. -/
def blockRow (line : List Char) : List Char :=
  if Text.isAllBlank line then [] else ' ' :: ' ' :: escapeQuotes line

/-- A line of a printed block string is its row with a line feed behind it. -/
theorem blockLine_eq (line : List Char) : blockLine line = blockRow line ++ ['\n'] := by
  rw [blockLine, blockRow]
  split <;> simp

/-- What stands between the quotes of a block string with some lines. -/
def blockChars (rows : List (List Char)) : List Char :=
  '\n' :: rows.flatMap blockLine

/-- Reading a block string passes over the whole row of a line. -/
theorem readBlock_blockRow (line rest : List Char) :
    Token.readBlock false (blockRow line ++ '\n' :: rest) =
      (Token.readBlock false rest).map fun found =>
      (blockRow line ++ '\n' :: found.1, found.2) := by
  rw [blockRow]
  split
  · exact readBlock_escapeQuotes false [] rest
  · have hindented : escapeQuotes (' ' :: ' ' :: line) = ' ' :: ' ' :: escapeQuotes line := by
      rw [escapeQuotes_cons (by decide), escapeQuotes_cons (by decide)]
    rw [← hindented]
    exact readBlock_escapeQuotes false _ rest

/-- Between three quotes, the text of a string of several lines ends at the next three quotes. -/
theorem readable_block (rows : List (List Char)) : (Token.block (blockChars rows)).Readable := by
  have hrows : Token.readBlock false (rows.flatMap blockLine ++ ['"', '"', '"']) =
      some (rows.flatMap blockLine, []) := by
    induction rows with
    | nil => rfl
    | cons row rows ih =>
      rw [List.flatMap_cons, blockLine_eq, List.append_assoc, List.append_assoc,
        List.singleton_append, readBlock_blockRow, ih]
      simp
  have hfirst := readBlock_escapeQuotes false [] (rows.flatMap blockLine ++ ['"', '"', '"'])
  rw [hrows] at hfirst
  exact hfirst


/-! ## Bytes of a text -/

theorem byteLength_cons (c : Char) (text : List Char) :
    byteLength (c :: text) = c.utf8Size + byteLength text :=
  rfl

/-- The bytes of two texts are counted one after the other. -/
theorem byteLength_append (text later : List Char) :
    byteLength (text ++ later) = byteLength text + byteLength later := by
  induction text with
  | nil => simp [byteLength]
  | cons c text ih => rw [List.cons_append, byteLength_cons, byteLength_cons, ih, Nat.add_assoc]

/-- A beginning of a text is dropped with all of its bytes. -/
theorem dropBytes?_byteLength (cut rest : List Char) :
    dropBytes? (byteLength cut) (cut ++ rest) = some rest := by
  induction cut with
  | nil => simp [dropBytes?, byteLength]
  | cons c cut ih =>
    obtain ⟨more, hmore⟩ := Nat.exists_eq_succ_of_ne_zero (Char.utf8Size_pos c).ne'
    have hsize : byteLength (c :: cut) = more + byteLength cut + 1 := by
      rw [byteLength_cons, hmore]
      omega
    have hleft : more + byteLength cut + 1 - c.utf8Size = byteLength cut := by omega
    rw [hsize, List.cons_append, dropBytes?, if_pos (by omega), hleft, ih]

/--
What is left of a text is an end of it, behind a beginning of just as many bytes as were to go.
-/
theorem dropBytes?_eq_some_iff {count : Nat} {text rest : List Char} :
    dropBytes? count text = some rest ↔ ∃ cut, text = cut ++ rest ∧ byteLength cut = count := by
  constructor
  · intro h
    induction text generalizing count with
    | nil =>
      cases count with
      | zero => exact ⟨[], Option.some.inj h, rfl⟩
      | succ count => exact absurd h (by simp [dropBytes?])
    | cons c text ih =>
      cases count with
      | zero => exact ⟨[], by simpa [dropBytes?] using h, rfl⟩
      | succ count =>
        rw [dropBytes?] at h
        split at h
        · obtain ⟨cut, rfl, hcut⟩ := ih h
          refine ⟨c :: cut, rfl, ?_⟩
          rw [byteLength_cons, hcut]
          omega
        · exact absurd h (by simp)
  · rintro ⟨cut, rfl, rfl⟩
    exact dropBytes?_byteLength cut rest

/-- What is cut from a text does not concern what stands behind it. -/
theorem dropBytes?_append {count : Nat} {text : List Char} (h : count ≤ byteLength text)
    (later : List Char) :
    dropBytes? count (text ++ later) = (dropBytes? count text).map (· ++ later) := by
  induction text generalizing count with
  | nil =>
    obtain rfl : count = 0 := Nat.le_zero.1 h
    simp [dropBytes?]
  | cons c text ih =>
    cases count with
    | zero => simp [dropBytes?]
    | succ count =>
      rw [byteLength_cons] at h
      rw [List.cons_append, dropBytes?, dropBytes?]
      split
      · exact ih (by omega)
      · rfl

/-! ## Margins -/

/-- A line that is not blank is its margin and what begins with a character other than a blank. -/
theorem exists_margin {line : List Char} (h : Text.isAllBlank line = false) :
    ∃ margin c body, line = margin ++ c :: body ∧ (∀ d ∈ margin, Text.isBlank d = true) ∧
      Text.isBlank c = false := by
  induction line with
  | nil => simp [Text.isAllBlank] at h
  | cons d line ih =>
    cases hd : Text.isBlank d with
    | false => exact ⟨[], d, line, rfl, by simp, hd⟩
    | true =>
      have hline : Text.isAllBlank line = false := by simpa [Text.isAllBlank, hd] using h
      obtain ⟨margin, c, body, rfl, hmargin, hc⟩ := ih hline
      exact ⟨d :: margin, c, body, rfl, by simpa [hd] using hmargin, hc⟩

section

variable {margin body : List Char} {c : Char} (hmargin : ∀ d ∈ margin, Text.isBlank d = true)
  (hc : Text.isBlank c = false)

include hc in
theorem isAllBlank_append_cons : Text.isAllBlank (margin ++ c :: body) = false := by
  simp [Text.isAllBlank, hc]

include hmargin hc

/-- The indentation of a line is as long as the blank text that it begins with. -/
theorem indentation_of_margin : indentation (margin ++ c :: body) = byteLength margin := by
  rw [indentation, List.takeWhile_append_of_pos hmargin]
  simp [hc]

/-- Escaping quotes leaves the margin as it is, and what follows it still begins with no blank. -/
theorem exists_escapeQuotes_of_margin (body : List Char) :
    ∃ d rest, escapeQuotes (margin ++ c :: body) = margin ++ d :: rest ∧
      d :: rest = escapeQuotes (c :: body) ∧ Text.isBlank d = false := by
  induction margin with
  | nil =>
    by_cases hquotes : ∃ later, c :: body = '"' :: '"' :: '"' :: later
    · obtain ⟨later, hlater⟩ := hquotes
      rw [List.nil_append, hlater]
      exact ⟨_, _, rfl, rfl, by decide⟩
    · have hnot : ∀ later, c = '"' → body = '"' :: '"' :: later → False := by
        rintro later rfl rfl
        exact hquotes ⟨later, rfl⟩
      rw [List.nil_append, escapeQuotes.eq_2 _ _ hnot]
      exact ⟨c, _, rfl, rfl, hc⟩
  | cons e margin ih =>
    have he : e ≠ '"' := by
      rintro rfl
      exact absurd (hmargin '"' List.mem_cons_self) (by decide)
    obtain ⟨d, rest, hescape, hrest, hd⟩ := ih fun x hx => hmargin x (List.mem_cons_of_mem _ hx)
    exact ⟨d, rest, by rw [List.cons_append, escapeQuotes_cons he, hescape]; rfl, hrest, hd⟩

omit hmargin in
/-- A carriage return is blank, so it is not the only character behind the margin. -/
theorem exists_withoutReturn_eq (margin body : List Char) :
    ∃ rest, Text.withoutReturn (margin ++ c :: body) = margin ++ c :: rest := by
  rcases Text.withoutReturn_cases (margin ++ c :: body) with ⟨_, hsame⟩ | hconcat
  · exact ⟨body, hsame⟩
  · obtain rfl | ⟨rest, d, rfl⟩ := List.eq_nil_or_concat body
    · have hlast := congrArg List.getLast? hconcat
      rw [List.getLast?_concat, List.getLast?_concat, Option.some.injEq] at hlast
      rw [hlast] at hc
      exact absurd hc (by decide)
    · rw [List.concat_eq_append, ← List.cons_append, ← List.append_assoc] at hconcat ⊢
      exact ⟨rest, (List.append_inj_left' hconcat rfl).symm⟩

end

/-! ## Rows of a block string -/

theorem withoutReturn_escapeQuotes (line : List Char) :
    Text.withoutReturn (escapeQuotes line) = escapeQuotes (Text.withoutReturn line) := by
  rcases Text.withoutReturn_cases line with ⟨hlast, hsame⟩ | hconcat
  · rw [hsame]
    apply Text.withoutReturn_of_ne
    rwa [getLast?_escapeQuotes]
  · generalize Text.withoutReturn line = row at hconcat ⊢
    rw [hconcat, escapeQuotes_concat_return, Text.withoutReturn_concat]

/-- A line as it is read from a block string. -/
def readRow (line : List Char) : List Char :=
  Text.withoutReturn (blockRow line)

/-- A blank line is read back as an empty one. -/
theorem readRow_of_blank {line : List Char} (h : Text.isAllBlank line = true) :
    readRow line = [] := by
  rw [readRow, blockRow, if_pos h]
  rfl

/-- A line that is not blank is read back behind the two spaces that the printer adds. -/
theorem readRow_of_not_blank {line : List Char} (h : Text.isAllBlank line = false) :
    readRow line = ' ' :: ' ' :: escapeQuotes (Text.withoutReturn line) := by
  rw [readRow, blockRow, if_neg (by simp [h]), Text.withoutReturn_cons (fun _ => by decide),
    Text.withoutReturn_cons (fun _ => by decide), withoutReturn_escapeQuotes]

/-- What is read of a line that is not blank: its margin, two blanks wider, and what follows it. -/
theorem exists_readRow_eq {line : List Char} (h : Text.isAllBlank line = false) :
    ∃ margin c body, (∀ d ∈ margin, Text.isBlank d = true) ∧ Text.isBlank c = false ∧
      Text.withoutReturn line = margin ++ c :: body ∧ indentation line = byteLength margin ∧
      ∃ d rest, readRow line = ' ' :: ' ' :: margin ++ d :: rest ∧
        d :: rest = escapeQuotes (c :: body) ∧
        Text.isBlank d = false := by
  obtain ⟨margin, c, body, rfl, hmargin, hc⟩ := exists_margin h
  obtain ⟨rest, hrest⟩ := exists_withoutReturn_eq hc margin body
  obtain ⟨d, behind, hescape, hbehind, hd⟩ := exists_escapeQuotes_of_margin hmargin hc rest
  refine ⟨margin, c, rest, hmargin, hc, hrest, indentation_of_margin hmargin hc, d, behind, ?_,
    hbehind, hd⟩
  rw [readRow_of_not_blank h, hrest, hescape]
  rfl

/-- What is read back of a line is blank if and only if the line is. -/
theorem isAllBlank_readRow (line : List Char) :
    Text.isAllBlank (readRow line) = Text.isAllBlank line := by
  cases h : Text.isAllBlank line with
  | true =>
    rw [readRow_of_blank h]
    rfl
  | false =>
    obtain ⟨margin, c, body, _, _, _, _, d, rest, hread, _, hd⟩ := exists_readRow_eq h
    rw [hread]
    exact isAllBlank_append_cons hd

/-- A line that is read back is indented by two characters more. -/
theorem indentation_readRow {line : List Char} (h : Text.isAllBlank line = false) :
    indentation (readRow line) = 2 + indentation line := by
  obtain ⟨margin, c, body, hmargin, _, _, hindentation, d, rest, hread, _, hd⟩ :=
    exists_readRow_eq h
  have hwider : ∀ e ∈ ' ' :: ' ' :: margin, Text.isBlank e = true := by
    intro e he
    rcases List.mem_cons.1 he with rfl | he
    · decide
    · rcases List.mem_cons.1 he with rfl | he
      · decide
      · exact hmargin e he
  rw [hread, indentation_of_margin hwider hd, hindentation]
  simp only [byteLength_cons, show ' '.utf8Size = 1 from rfl]
  omega

/-- What is added to all sizes is added to the least of them. -/
theorem min?_map_add (count : Nat) (sizes : List Nat) :
    (sizes.map (count + ·)).min? = sizes.min?.map (count + ·) := by
  cases sizes with
  | nil => rfl
  | cons size sizes =>
    simp only [List.map_cons, List.min?_cons', Option.map_some]
    congr 1
    induction sizes generalizing size with
    | nil => rfl
    | cons next sizes ih =>
      rw [List.map_cons, List.foldl_cons, List.foldl_cons, ← ih, Nat.add_min_add_left]

/-- Two blanks are put in front of every line that is not blank. -/
theorem commonIndentation?_readRow (rows : List (List Char)) :
    commonIndentation? (rows.map readRow) = (commonIndentation? rows).map (2 + ·) := by
  rw [commonIndentation?, commonIndentation?, ← min?_map_add, List.filter_map, List.map_map,
    List.map_map]
  have hfilter : (fun row => !Text.isAllBlank row) ∘ readRow = fun row => !Text.isAllBlank row := by
    funext row
    simp [isAllBlank_readRow]
  rw [hfilter]
  congr 1
  apply List.map_congr_left
  intro row hrow
  rw [List.mem_filter] at hrow
  exact indentation_readRow (by simpa using hrow.2)

/-- A line that is read from a block string, where some bytes of its margin are to be cut. -/
def cutRow? (count : Nat) (line : List Char) : Option (List Char) :=
  if Text.isAllBlank line then some [] else dropBytes? count (Text.withoutReturn line)

/-- A line that is not blank is cut within its margin, or not at all. -/
theorem cutRow?_of_margin {count : Nat} {line margin body : List Char} {c : Char}
    (h : Text.isAllBlank line = false) (hline : Text.withoutReturn line = margin ++ c :: body)
    (hcount : count ≤ byteLength margin) :
    cutRow? count line = (dropBytes? count margin).map (· ++ c :: body) := by
  rw [cutRow?, if_neg (by simp [h]), hline, dropBytes?_append hcount]

/-- Something is left of a line that is not blank when no more than its margin is cut. -/
theorem ne_nil_of_cutRow? {count : Nat} {line cut : List Char} (h : Text.isAllBlank line = false)
    (hcount : count ≤ indentation line) (hcut : cutRow? count line = some cut) : cut ≠ [] := by
  obtain ⟨margin, c, body, _, _, hline, hindentation, _⟩ := exists_readRow_eq h
  rw [cutRow?_of_margin h hline (hindentation ▸ hcount)] at hcut
  obtain ⟨rest, _, rfl⟩ := Option.map_eq_some_iff.1 hcut
  exact List.append_ne_nil_of_right_ne_nil _ (List.cons_ne_nil _ _)

/-- What is left of a line that is read when no more than its margin and the two blanks are cut. -/
theorem cutBytes?_readRow {count : Nat} {line : List Char} (h : Text.isAllBlank line = false)
    (hcount : count ≤ indentation line) :
    cutBytes? (2 + count) (readRow line) = (cutRow? count line).map escapeQuotes := by
  obtain ⟨margin, c, body, hmargin, hc, hline, hindentation, d, rest, hread, hescape, _⟩ :=
    exists_readRow_eq h
  rw [hindentation] at hcount
  have hdrop (later : List Char) : dropBytes? (2 + count) (' ' :: ' ' :: margin ++ later) =
      (dropBytes? count margin).map (· ++ later) := by
    rw [show 2 + count = count + 1 + 1 by omega, List.cons_append, List.cons_append, dropBytes?,
      show ' '.utf8Size = 1 from rfl, if_pos (by omega), Nat.add_sub_cancel, dropBytes?,
      show ' '.utf8Size = 1 from rfl, if_pos (by omega), Nat.add_sub_cancel,
      dropBytes?_append hcount]
  have hlong : ¬byteLength (readRow line) < 2 + count := by
    rw [hread, byteLength_append, byteLength_cons, byteLength_cons]
    simp only [show ' '.utf8Size = 1 from rfl]
    omega
  rw [cutBytes?, if_neg hlong, hread, hdrop, cutRow?_of_margin h hline hcount, Option.map_map]
  refine Option.map_congr fun left hleft => ?_
  -- What is left of the margin has no quotes to be escaped.
  obtain ⟨gone, hgone, _⟩ := dropBytes?_eq_some_iff.1 hleft
  have hblank : ∀ e ∈ left, Text.isBlank e = true := by
    intro e he
    exact hmargin e (by rw [hgone]; exact List.mem_append_right _ he)
  obtain ⟨_, _, hescape', hrest', _⟩ := exists_escapeQuotes_of_margin hblank hc body
  rw [Function.comp_apply, hescape', hescape, hrest']

theorem lf_not_mem_blockRow {line : List Char} (h : '\n' ∉ line) : '\n' ∉ blockRow line := by
  rw [blockRow]
  split
  · simp
  · intro hmem
    simp only [List.mem_cons] at hmem
    rcases hmem with hblank | hblank | hmem
    · exact absurd hblank (by decide)
    · exact absurd hblank (by decide)
    · rcases mem_of_mem_escapeQuotes hmem with hline | hbackslash
      · exact h hline
      · exact absurd hbackslash (by decide)

/-- A block string is read line by line. -/
theorem lines_blockChars {rows : List (List Char)} (h : ∀ row ∈ rows, '\n' ∉ row) :
    Text.lines (blockChars rows) = [] :: rows.map readRow := by
  rw [blockChars, Text.lines_lf]
  congr 1
  induction rows with
  | nil => simp
  | cons row rows ih =>
    rw [List.flatMap_cons, blockLine_eq, List.append_assoc, List.singleton_append,
      Text.lines_line_lf (lf_not_mem_blockRow (h row List.mem_cons_self)),
      ih fun other hother => h other (List.mem_cons_of_mem _ hother)]
    rfl

/-- The least indentation of the lines that are not blank, or zero if all of them are. -/
def commonMargin (rows : List (List Char)) : Nat :=
  (commonIndentation? rows).getD 0

/-- There is a common indentation as soon as one row is not blank. -/
theorem exists_commonIndentation? {rows : List (List Char)} {row : List Char} (hmem : row ∈ rows)
    (hrow : Text.isAllBlank row = false) : ∃ least, commonIndentation? rows = some least := by
  rw [← Option.isSome_iff_exists]
  refine List.isSome_min?_of_mem (List.mem_map_of_mem (a := row) ?_)
  rw [List.mem_filter]
  exact ⟨hmem, by simp [hrow]⟩

/-- No row that is not blank is indented less than the common margin. -/
theorem commonMargin_le {rows : List (List Char)} {row : List Char} (hmem : row ∈ rows)
    (hrow : Text.isAllBlank row = false) : commonMargin rows ≤ indentation row := by
  rw [commonMargin]
  cases hmin : commonIndentation? rows with
  | none => exact Nat.zero_le _
  | some least =>
    refine (List.min?_eq_some_iff.1 hmin).2 _ (List.mem_map_of_mem ?_)
    rw [List.mem_filter]
    exact ⟨hmem, by simp [hrow]⟩

/-- Dropping at both ends commutes with a function on the elements. -/
theorem dropOuter_map {α β : Type} (f : α → β) (p : β → Bool) (elements : List α) :
    dropOuter p (elements.map f) = (dropOuter (fun element => p (f element)) elements).map f := by
  rw [dropOuter, List.dropWhile_map, ← List.map_reverse, List.dropWhile_map, ← List.map_reverse]
  rfl

theorem dropOuter_sublist {α : Type} (p : α → Bool) (elements : List α) :
    (dropOuter p elements).Sublist elements := by
  have hinner := List.dropWhile_sublist (l := (elements.dropWhile p).reverse) p
  rw [← List.reverse_sublist, List.reverse_reverse] at hinner
  exact hinner.trans (List.dropWhile_sublist p)

/-- What is left of a line of a block string, before the escaped quotes are read. -/
theorem cutBytes?_commonMargin {rows : List (List Char)} {row : List Char} (hmem : row ∈ rows) :
    cutBytes? ((commonIndentation? (rows.map readRow)).getD 0) (readRow row) =
      (cutRow? (commonMargin rows) row).map escapeQuotes := by
  rw [commonIndentation?_readRow]
  cases hrow : Text.isAllBlank row with
  | true =>
    have hcut (count : Nat) : cutBytes? count [] = some [] := by
      rw [cutBytes?]
      cases count <;> simp [dropBytes?, byteLength]
    rw [readRow_of_blank hrow, cutRow?, if_pos hrow, hcut]
    rfl
  | false =>
    have hmargin := commonMargin_le hmem hrow
    obtain ⟨least, hleast⟩ := exists_commonIndentation? hmem hrow
    rw [hleast, Option.map_some, Option.getD_some]
    rw [commonMargin, hleast, Option.getD_some] at hmargin ⊢
    exact cutBytes?_readRow hrow hmargin

/-- Results that are those of another function, changed afterwards, are there where these are. -/
theorem mapM_eq_map_mapM {α β γ : Type} {f : α → Option γ} {g : α → Option β} {change : β → γ}
    {elements : List α} (h : ∀ element ∈ elements, f element = (g element).map change) :
    elements.mapM f = (elements.mapM g).map (List.map change) := by
  induction elements with
  | nil => rfl
  | cons element elements ih =>
    rw [List.mapM_cons, List.mapM_cons, h element List.mem_cons_self,
      ih fun later hlater => h later (List.mem_cons_of_mem _ hlater)]
    cases g element with
    | none => rfl
    | some result => cases elements.mapM g <;> rfl

/-- What a block string with some lines is read as. -/
theorem decodeBlock?_blockChars {rows : List (List Char)} (h : ∀ row ∈ rows, '\n' ∉ row) :
    decodeBlock? (blockChars rows) =
      ((dropOuter Text.isAllBlank rows).mapM (cutRow? (commonMargin rows))).map Text.unlines := by
  have hrows : dropOuter (fun row => Text.isAllBlank row.2) (blockRows (blockChars rows)) =
      (dropOuter Text.isAllBlank rows).map fun row =>
        ((commonIndentation? (rows.map readRow)).getD 0, readRow row) := by
    have hfirst (later : List (Nat × List Char)) :
        dropOuter (fun row => Text.isAllBlank row.2) ((0, []) :: later) =
          dropOuter (fun row => Text.isAllBlank row.2) later := rfl
    rw [blockRows, lines_blockChars h]
    dsimp only
    rw [hfirst, List.map_map, dropOuter_map]
    simp only [Function.comp_apply, isAllBlank_readRow]
    rfl
  have hcut (row : List Char) (hrow : row ∈ dropOuter Text.isAllBlank rows) :=
    cutBytes?_commonMargin ((dropOuter_sublist _ _).subset hrow)
  rw [decodeBlock?, hrows, List.mapM_map]
  simp only [Function.comp_def]
  rw [mapM_eq_map_mapM hcut]
  cases (dropOuter Text.isAllBlank rows).mapM (cutRow? (commonMargin rows)) with
  | none => rfl
  | some cuts =>
    have hundone : (cuts.map escapeQuotes).map unescapeQuotes = cuts := by
      rw [List.map_map]
      exact List.map_id'' unescapeQuotes_escapeQuotes cuts
    exact congrArg (some ∘ Text.unlines) hundone

end QueryHooks.Document
