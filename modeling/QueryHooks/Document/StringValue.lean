import QueryHooks.Text.Blank
import QueryHooks.Text.Digits
import QueryHooks.Text.Lines

/-!
# Values of string literals

What the text between the quotes of a string stands for.  A quoted string has escapes; a block
string is taken line by line, less the indentation that its lines have in common.  This indentation
is counted in bytes, so it need not end between two characters of every line.

Main definitions: `decodeQuoted?`, `decodeBlock?`.
-/

namespace QueryHooks.Document

/-! ## Quoted strings -/

/--
The character with the code point given by four characters: digits, or a plus sign and digits.
-/
def codePoint? (code : List Char) : Option Char :=
  Text.codePoint? (if code.head? = some '+' then code.tail else code)

/-- The character that an escape of two characters stands for; `b` stands for U+0010. -/
def escaped? (c : Char) : Option Char :=
  match c with
  | '"' => some '"'
  | '\\' => some '\\'
  | '/' => some '/'
  | 'b' => some '\x10'
  | 'f' => some '\x0c'
  | 'n' => some '\n'
  | 'r' => some '\r'
  | 't' => some '\t'
  | _ => none

/-- The value of the text between two quotes, unless an escape is malformed. -/
def decodeQuoted? : List Char → Option (List Char)
  | [] => some []
  | '\\' :: 'u' :: a :: b :: c :: d :: rest => do
    let decoded ← codePoint? [a, b, c, d]
    let later ← decodeQuoted? rest
    return decoded :: later
  | '\\' :: c :: rest => do
    let decoded ← escaped? c
    let later ← decodeQuoted? rest
    return decoded :: later
  | c :: rest => if c = '\\' then none else (decodeQuoted? rest).map (c :: ·)

/-! ## Block strings -/

/-- The length of a text in bytes. -/
def byteLength (text : List Char) : Nat :=
  text.foldr (fun c length => c.utf8Size + length) 0

/-- The length in bytes of the blanks at the start of a line. -/
def indentation (line : List Char) : Nat :=
  byteLength (line.takeWhile Text.isBlank)

/-- A text without its first bytes, unless these end inside of a character. -/
def dropBytes? : Nat → List Char → Option (List Char)
  | 0, text => some text
  | _, [] => none
  | count + 1, c :: rest =>
    if c.utf8Size ≤ count + 1 then dropBytes? (count + 1 - c.utf8Size) rest else none

/-- A line without its first bytes; a line that has fewer of them stays as it is. -/
def cutBytes? (count : Nat) (line : List Char) : Option (List Char) :=
  if byteLength line < count then some line else dropBytes? count line

/-- The least indentation of the lines that are not blank, if there are any. -/
def commonIndentation? (rows : List (List Char)) : Option Nat :=
  ((rows.filter (!Text.isAllBlank ·)).map indentation).min?

/-- A list without the elements at its start and at its end that meet a condition. -/
def dropOuter {α : Type} (p : α → Bool) (elements : List α) : List α :=
  ((elements.dropWhile p).reverse.dropWhile p).reverse

/-- A text where the escape for three quotes is replaced by the quotes. -/
def unescapeQuotes : List Char → List Char
  | '\\' :: '"' :: '"' :: '"' :: rest => '"' :: '"' :: '"' :: unescapeQuotes rest
  | c :: rest => c :: unescapeQuotes rest
  | [] => []

/--
The lines of a block string, each with the number of bytes to be cut from its start: nothing from
the first line, and from all others the indentation that they have in common.
-/
def blockRows (text : List Char) : List (Nat × List Char) :=
  match Text.lines text with
  | [] => []
  | first :: later =>
    (0, first) :: later.map fun row => ((commonIndentation? later).getD 0, row)

/--
The value of the text between two triples of quotes.  Blank lines at the start and at the end are
left out, and the others are cut.  There is none if bytes would be cut from a line that end inside
of one of its characters, which happens where blanks of several bytes are part of an indentation.
-/
def decodeBlock? (text : List Char) : Option (List Char) := do
  let kept := dropOuter (fun row => Text.isAllBlank row.2) (blockRows text)
  let rows ← kept.mapM fun row => cutBytes? row.1 row.2
  return Text.unlines (rows.map unescapeQuotes)

end QueryHooks.Document
