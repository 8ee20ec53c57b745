import QueryHooks.Document.Position
import QueryHooks.Document.Token

/-!
# Lexemes of a document

A document is scanned into tokens with their positions.  Scanning stops at the end of the text or at
the first malformed token, and it also stops in front of a bracket that would be nested too deep.

Main definitions: `Lexeme`, `Scan`, `scan`, `Scan.limitNesting`.
-/

namespace QueryHooks.Document

/-- A token and the position of its first character. -/
structure Lexeme where
  position : Position
  token : Token
  deriving DecidableEq, Repr

/-- Why there are no more lexemes. -/
inductive Ending where
  /-- The text is at its end. -/
  | endOfText (position : Position)
  /-- What follows is no token, or a bracket that nests too deep. -/
  | malformed (position : Position)
  deriving DecidableEq, Repr

/-- The position at which scanning ends. -/
def Ending.position : Ending → Position
  | endOfText position => position
  | malformed position => position

/-- The lexemes of a text up to its end or to the first malformed one. -/
structure Scan where
  lexemes : List Lexeme
  ending : Ending
  deriving DecidableEq, Repr

/-! ## Ignored characters -/

/--
The text behind the ignored characters at its start, and its position.  A tab is eight columns wide;
a carriage return and a byte-order mark have no width.  A comment reaches up to a carriage return or
a line feed, either of which then begins a new line; its own characters have no width.
-/
def skipIgnored (inComment : Bool) (position : Position) : List Char → Position × List Char
  | [] => (position, [])
  | c :: rest =>
    if inComment then
      if c = '\n' ∨ c = '\r' then skipIgnored false position.nextLine rest
      else skipIgnored true position rest
    else if c = '\n' then skipIgnored false position.nextLine rest
    else if c = ' ' ∨ c = ',' then skipIgnored false (position.right 1) rest
    else if c = '\t' then skipIgnored false (position.right 8) rest
    else if c = '\r' ∨ c = '\ufeff' then skipIgnored false position rest
    else if c = '#' then skipIgnored true position rest
    else (position, c :: rest)

/-- Skipping ignored characters makes no text longer. -/
theorem length_skipIgnored (inComment : Bool) (position : Position) (text : List Char) :
    (skipIgnored inComment position text).2.length ≤ text.length := by
  fun_induction skipIgnored inComment position text <;> simp_all <;> omega

/-! ## Scanning -/

/-- The lexemes of a text that stands at a position. -/
def scanFrom (position : Position) (text : List Char) : Scan :=
  let here := skipIgnored false position text
  if here.2 = [] then ⟨[], .endOfText here.1⟩
  else
    match _h : Token.read here.2 with
    | none => ⟨[], .malformed here.1⟩
    | some (token, rest) =>
      let later := scanFrom (here.1.after token.source) rest
      ⟨⟨here.1, token⟩ :: later.lexemes, later.ending⟩
termination_by text.length
decreasing_by
  exact Nat.lt_of_lt_of_le (Token.length_read ‹Token.read _ = some _›)
    (length_skipIgnored false position text)

/-! ## Nesting -/

/-- The number of brackets that may be open at a time. -/
def maxNesting : Nat := 50

/--
The lexemes in front of the first bracket that opens when `left` more brackets are open already, and
the position of that bracket.
-/
def limitLexemes (left : Nat) : List Lexeme → List Lexeme × Option Position
  | [] => ([], none)
  | lexeme :: lexemes =>
    let go (left : Nat) :=
      let (kept, position?) := limitLexemes left lexemes
      (lexeme :: kept, position?)
    match lexeme.token with
    | .punctuator c =>
      if c = '(' ∨ c = '[' ∨ c = '\x7b' then
        match left with
        | 0 => ([], some lexeme.position)
        | left + 1 => go left
      else if c = ')' ∨ c = ']' ∨ c = '\x7d' then go (left + 1)
      else go left
    | _ => go left

/-- A scan that ends in front of the first bracket that nests too deep. -/
def Scan.limitNesting (scan : Scan) : Scan :=
  match limitLexemes maxNesting scan.lexemes with
  | (lexemes, none) => ⟨lexemes, scan.ending⟩
  | (lexemes, some position) => ⟨lexemes, .malformed position⟩

/-- The lexemes of a document. -/
def scan (text : List Char) : Scan :=
  (scanFrom {} text).limitNesting

end QueryHooks.Document
