/-!
# Places in a YAML text

A cursor is what is left of a text together with the place where that begins, since the layout of a
YAML document is part of its meaning.

Main definitions: the character classes `isBreak` and `isBlank`, and `Cursor`.
-/

namespace QueryHooks.Yaml

/-! ## Characters -/

/-- Whether a character may stand in a YAML text. -/
def isAllowed (c : Char) : Bool :=
  let n := c.toNat
  n == 0x09 || n == 0x0A || n == 0x0D || (0x20 ≤ n && n ≤ 0x7E) || n == 0x85 ||
    (0xA0 ≤ n && n ≤ 0xFFFD) || 0x10000 ≤ n

/-- Whether a character ends a line. -/
def isBreak (c : Char) : Bool :=
  c == '\n' || c == '\r' || c == '\x85' || c == '\u2028' || c == '\u2029'

/-- Whether a character is a space or a tab. -/
def isBlank (c : Char) : Bool :=
  c == ' ' || c == '\t'

/-- Whether a character can stand in the name of an anchor. -/
def isWordChar (c : Char) : Bool :=
  c.isAlphanum || c == '_' || c == '-'

/-- Whether a character is an opening or closing bracket of a flow collection, or a comma. -/
def isFlowMark (c : Char) : Bool :=
  [',', '[', ']', '\x7b', '\x7d'].contains c

/-- Whether the text ends here or goes on with a line break. -/
def isLineEnd (next? : Option Char) : Bool :=
  next?.all isBreak

/-- Whether the text ends here or goes on with a line break or a blank. -/
def isGap (next? : Option Char) : Bool :=
  next?.all fun c => isBreak c || isBlank c

/-! ## Cursors -/

/-- What is left of a text, and where it begins; lines and columns are counted from zero. -/
structure Cursor where
  rest : List Char
  index : Nat := 0
  line : Nat := 0
  column : Nat := 0
  deriving Repr

namespace Cursor

/-- The next character. -/
def next? (cursor : Cursor) : Option Char :=
  cursor.rest.head?

/-- The character behind the next `n` ones. -/
def peek? (cursor : Cursor) (n : Nat) : Option Char :=
  cursor.rest[n]?

/-- Whether the next character is `c`. -/
def atChar (cursor : Cursor) (c : Char) : Bool :=
  cursor.next? == some c

/-- Go over characters of the same line. -/
def skip (cursor : Cursor) (count : Nat) : Cursor :=
  { cursor with
    rest := cursor.rest.drop count
    index := cursor.index + count
    column := cursor.column + count }

/-- The characters up to the first that fails a test, and the cursor behind them. -/
def takeWhile (cursor : Cursor) (p : Char → Bool) : List Char × Cursor :=
  let taken := cursor.rest.takeWhile p
  (taken, cursor.skip taken.length)

/-- Go over the characters up to the first that fails a test. -/
def skipWhile (cursor : Cursor) (p : Char → Bool) : Cursor :=
  (cursor.takeWhile p).2

/-- Go to the start of the next line over a line break of some characters. -/
def skipBreak (cursor : Cursor) (count : Nat) : Cursor :=
  { rest := cursor.rest.drop count
    index := cursor.index + count
    line := cursor.line + 1
    column := 0 }

/--
Take the line break that comes next, if one does.  It counts as a line feed, but for the separators
of lines and paragraphs, which are kept.
-/
def takeBreak (cursor : Cursor) : List Char × Cursor :=
  match cursor.rest with
  | '\r' :: '\n' :: _ => (['\n'], cursor.skipBreak 2)
  | c :: _ =>
    if c = '\u2028' ∨ c = '\u2029' then ([c], cursor.skipBreak 1)
    else if isBreak c then (['\n'], cursor.skipBreak 1)
    else ([], cursor)
  | [] => ([], cursor)

/-- Whether a line begins here with a mark of three characters. -/
def atLineMark (cursor : Cursor) (mark : List Char) : Bool :=
  cursor.column == 0 && cursor.rest.take 3 == mark && isGap (cursor.peek? 3)

/-- Whether a line begins here with the start or the end of a document. -/
def atDocumentMark (cursor : Cursor) : Bool :=
  cursor.atLineMark ['-', '-', '-'] || cursor.atLineMark ['.', '.', '.']

/-- Go over blanks and a comment to the end of the line; anything else there is refused. -/
def skipToLineEnd? (cursor : Cursor) : Option Cursor :=
  let cursor := cursor.skipWhile isBlank
  let cursor := if cursor.atChar '#' then cursor.skipWhile (!isBreak ·) else cursor
  if isLineEnd cursor.next? then some cursor else none

end Cursor

end QueryHooks.Yaml
