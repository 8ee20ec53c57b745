import QueryHooks.Text.Digits
import QueryHooks.Yaml.Cursor

/-!
# Flow scalars

Plain scalars and scalars in quotes.  The white space inside them is folded: a single line break
counts as a space, and of several line breaks all but the first count.

Main definitions: `Gap`, `takeGap`, `takeQuoted`, `takePlain`.
-/

namespace QueryHooks.Yaml

open Text (codePoint?)

/-! ## White space inside a scalar -/

/-- White space between two parts of a scalar. -/
structure Gap where
  /-- Whether there is a line break in it. -/
  broken : Bool := false
  /-- The blanks in front of the first line break; they count only if there is none. -/
  blanks : List Char := []
  /-- The first line break, unless it was escaped. -/
  first : List Char := []
  /-- The other line breaks. -/
  others : List Char := []

/-- What white space stands for. -/
def Gap.text (gap : Gap) : List Char :=
  if !gap.broken then gap.blanks
  else if gap.first = ['\n'] then if gap.others.isEmpty then [' '] else gap.others
  else gap.first ++ gap.others

/-- White space with one more line break. -/
def Gap.addBreak (gap : Gap) (lineBreak : List Char) : Gap :=
  if gap.broken then { gap with others := gap.others ++ lineBreak }
  else { gap with broken := true, blanks := [], first := lineBreak }

/--
Take white space that follows some that was taken already.  At the start of a line a tab is refused
in front of the column `column`.  The fuel bounds the number of lines.
-/
def takeGap (column : Nat) : Nat → Gap → Cursor → Option (Gap × Cursor)
  | 0, gap, cursor => some (gap, cursor)
  | fuel + 1, gap, cursor =>
    let (blanks, cursor') := cursor.takeWhile isBlank
    if gap.broken && (blanks.take (column - cursor.column)).contains '\t' then none
    else
      let gap := if gap.broken then gap else { gap with blanks }
      if cursor'.next?.any isBreak then
        let (lineBreak, cursor') := cursor'.takeBreak
        takeGap column fuel (gap.addBreak lineBreak) cursor'
      else some (gap, cursor')

/-! ## Quoted scalars -/

/-- A stretch of a quoted scalar without white space. -/
structure Stretch where
  text : List Char := []
  /-- How many characters of the source it takes. -/
  length : Nat := 0
  /-- Whether it ends in a backslash in front of a line break. -/
  escapedBreak : Bool := false

/-- A stretch behind a character that is written with some characters. -/
def Stretch.cons (c : Char) (length : Nat) (stretch : Stretch) : Stretch :=
  { stretch with text := c :: stretch.text, length := length + stretch.length }

/-- The character that an escape of one letter stands for. -/
def escaped? (c : Char) : Option Char :=
  match c with
  | '0' => some '\x00'
  | 'a' => some '\x07'
  | 'b' => some '\x08'
  | 't' => some '\t'
  | '\t' => some '\t'
  | 'n' => some '\n'
  | 'v' => some '\x0b'
  | 'f' => some '\x0c'
  | 'r' => some '\r'
  | 'e' => some '\x1b'
  | ' ' => some ' '
  | '"' => some '"'
  | '/' => some '/'
  | '\\' => some '\\'
  | 'N' => some '\x85'
  | '_' => some '\xa0'
  | 'L' => some '\u2028'
  | 'P' => some '\u2029'
  | _ => none

/-- The stretch at the start of a text inside double quotes, unless an escape in it is malformed. -/
def doubleStretch? : List Char → Option Stretch
  | [] => some {}
  | '\\' :: 'x' :: a :: b :: rest => do
    let c ← codePoint? [a, b]
    return (← doubleStretch? rest).cons c 4
  | '\\' :: 'u' :: a :: b :: c :: d :: rest => do
    let decoded ← codePoint? [a, b, c, d]
    return (← doubleStretch? rest).cons decoded 6
  | '\\' :: 'U' :: a :: b :: c :: d :: e :: f :: g :: h :: rest => do
    let decoded ← codePoint? [a, b, c, d, e, f, g, h]
    return (← doubleStretch? rest).cons decoded 10
  | '\\' :: c :: rest =>
    if isBreak c then some { length := 1, escapedBreak := true }
    else do
      let decoded ← escaped? c
      return (← doubleStretch? rest).cons decoded 2
  | c :: rest =>
    if c = '\\' then none
    else if c = '"' ∨ isBlank c ∨ isBreak c then some {}
    else (doubleStretch? rest).map (·.cons c 1)

/-- The stretch at the start of a text inside single quotes. -/
def singleStretch : List Char → Stretch
  | '\'' :: '\'' :: rest => (singleStretch rest).cons '\'' 2
  | c :: rest =>
    if c = '\'' ∨ isBlank c ∨ isBreak c then {} else (singleStretch rest).cons c 1
  | [] => {}

/-- The stretch at the start of a text inside quotes. -/
def stretch? (quote : Char) (text : List Char) : Option Stretch :=
  if quote = '"' then doubleStretch? text else some (singleStretch text)

/--
Go on with a scalar in quotes of which `text` was read, up to and over its end.  The fuel bounds the
number of stretches.
-/
def takeQuotedFrom (quote : Char) : Nat → List Char → Cursor → Option (List Char × Cursor)
  | 0, _, _ => none
  | fuel + 1, text, cursor => do
    if cursor.atDocumentMark then none
    else
      let stretch ← stretch? quote cursor.rest
      let cursor := cursor.skip stretch.length
      let text := text ++ stretch.text
      if stretch.escapedBreak then
        let (gap, cursor) ← takeGap 0 fuel { broken := true } cursor.takeBreak.2
        takeQuotedFrom quote fuel (text ++ gap.text) cursor
      else if cursor.atChar quote then some (text, cursor.skip 1)
      else if cursor.rest.isEmpty then none
      else
        let (gap, cursor) ← takeGap 0 fuel {} cursor
        takeQuotedFrom quote fuel (text ++ gap.text) cursor

/-- Take a scalar that begins with a quote. -/
def takeQuoted (quote : Char) (cursor : Cursor) : Option (List Char × Cursor) :=
  takeQuotedFrom quote (cursor.rest.length + 1) [] (cursor.skip 1)

/-! ## Plain scalars -/

/--
The stretch of a plain scalar at the start of a text.  A colon ends it in front of white space;
inside of flow collections so do the marks of these, and a colon in front of one of them is refused.
-/
def plainStretch? (inFlow : Bool) : List Char → Option (List Char)
  | [] => some []
  | c :: rest =>
    if isBlank c ∨ isBreak c then some []
    else if inFlow && c == ':' && rest.head?.any (fun next => next == '?' || isFlowMark next) then
      none
    else if c == ':' && isGap rest.head? || inFlow && isFlowMark c then some []
    else (plainStretch? inFlow rest).map (c :: ·)

/-- A plain scalar and where it ends. -/
structure Plain where
  text : List Char
  cursor : Cursor
  /-- Whether there is a line break between its text and its end. -/
  broken : Bool

/--
Go on with a plain scalar of which `text` was read, behind some white space.  Its lines begin at the
column `column` or further right, except inside of flow collections.  The fuel bounds the number of
stretches.
-/
def takePlainFrom (inFlow : Bool) (column : Nat) : Nat → List Char → Gap → Cursor → Option Plain
  | 0, text, gap, cursor => some ⟨text, cursor, gap.broken⟩
  | fuel + 1, text, gap, cursor => do
    if cursor.atDocumentMark || cursor.atChar '#' then return ⟨text, cursor, gap.broken⟩
    let stretch ← plainStretch? inFlow cursor.rest
    if stretch.isEmpty then return ⟨text, cursor, gap.broken⟩
    let text := text ++ gap.text ++ stretch
    let (gap, cursor) ← takeGap column (cursor.rest.length + 1) {} (cursor.skip stretch.length)
    if !inFlow && cursor.column < column then return ⟨text, cursor, gap.broken⟩
    takePlainFrom inFlow column fuel text gap cursor

/-- Take a plain scalar. -/
def takePlain (inFlow : Bool) (column : Nat) (cursor : Cursor) : Option Plain :=
  takePlainFrom inFlow column (cursor.rest.length + 1) [] {} cursor

end QueryHooks.Yaml
