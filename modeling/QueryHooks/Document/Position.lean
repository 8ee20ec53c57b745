/-!
# Positions in a document

A position is a line and a column, both counted from one.
-/

namespace QueryHooks.Document

/-- A place in a document. -/
structure Position where
  line : Nat := 1
  column : Nat := 1
  deriving DecidableEq, Repr, Inhabited

namespace Position

/-- The start of the next line. -/
def nextLine (position : Position) : Position :=
  ⟨position.line + 1, 1⟩

/-- The position some columns further on the same line. -/
def right (position : Position) (columns : Nat) : Position :=
  { position with column := position.column + columns }

/--
The position behind a text, where a line feed ends a line and each other character is one column.
-/
def after (position : Position) : List Char → Position
  | [] => position
  | c :: rest => (if c = '\n' then position.nextLine else position.right 1).after rest

/-- The position as it is written in messages. -/
def text (position : Position) : String :=
  toString position.line ++ ":" ++ toString position.column

end Position

end QueryHooks.Document
