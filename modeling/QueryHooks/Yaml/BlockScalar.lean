import QueryHooks.Yaml.Cursor

/-!
# Block scalars

Literal and folded scalars.  Their lines are indented to a common column, which is that of the first
line that is not empty unless a digit gives it.

Main definitions: `Chomping`, `takeBlock`.
-/

namespace QueryHooks.Yaml

/-- What becomes of the line breaks at the end of a block scalar. -/
inductive Chomping where
  /-- None is kept. -/
  | strip
  /-- The first is kept. -/
  | clip
  /-- All are kept. -/
  | keep
  deriving DecidableEq, Repr

/-- Take the sign that says how a block scalar is chomped, if it comes next. -/
def takeChomping (cursor : Cursor) : Option Chomping × Cursor :=
  if cursor.atChar '+' then (some .keep, cursor.skip 1)
  else if cursor.atChar '-' then (some .strip, cursor.skip 1)
  else (none, cursor)

/-- Take the digit that gives the indentation, if one comes next; zero is refused. -/
def takeIncrement? (cursor : Cursor) : Option (Option Nat × Cursor) :=
  match cursor.next? with
  | some c =>
    if c = '0' then none
    else if c.isDigit then some (some (c.toNat - 48), cursor.skip 1)
    else some (none, cursor)
  | none => some (none, cursor)

/-- Take the sign and the digit behind the mark of a block scalar; either may come first. -/
def takeHeader? (cursor : Cursor) : Option (Chomping × Option Nat × Cursor) := do
  let (chomping?, cursor) := takeChomping cursor
  let (increment?, cursor) ← takeIncrement? cursor
  match chomping? with
  | some chomping => return (chomping, increment?, cursor)
  | none =>
    if increment?.isSome then
      let (chomping?, cursor) := takeChomping cursor
      return (chomping?.getD .clip, increment?, cursor)
    else return (.clip, none, cursor)

/--
Take the empty lines that come next and the spaces in front of the column `column`, or any spaces if
that is not known yet.  The result has the line breaks, the cursor and the greatest column that was
reached.  A tab is refused where a space is expected.  The fuel bounds the number of lines.
-/
def takeEmptyLines (column? : Option Nat) :
    Nat → List Char → Nat → Cursor → Option (List Char × Nat × Cursor)
  | 0, breaks, widest, cursor => some (breaks, widest, cursor)
  | fuel + 1, breaks, widest, cursor =>
    let spaces := (cursor.takeWhile (· == ' ')).1.length
    let cursor := cursor.skip (match column? with
      | none => spaces
      | some column => min spaces (column - cursor.column))
    let widest := max widest cursor.column
    if column?.all (cursor.column < ·) && cursor.atChar '\t' then none
    else if cursor.next?.any isBreak then
      let (lineBreak, cursor) := cursor.takeBreak
      takeEmptyLines column? fuel (breaks ++ lineBreak) widest cursor
    else some (breaks, widest, cursor)

/-- What was read of a block scalar. -/
structure BlockText where
  text : List Char := []
  /-- The break behind the last line. -/
  lineBreak : List Char := []
  /-- The breaks of the empty lines behind the last line. -/
  emptyLines : List Char
  /-- Whether the last line begins with a blank. -/
  blank : Bool := false

/-- Whether the break behind the last line is folded in front of the line that comes next. -/
def BlockText.folds (block : BlockText) (folded : Bool) (cursor : Cursor) : Bool :=
  folded && block.lineBreak == ['\n'] && !block.blank && !cursor.next?.any isBlank

/-- What comes between the last line and the line that comes next. -/
def BlockText.joint (block : BlockText) (folded : Bool) (cursor : Cursor) : List Char :=
  if block.folds folded cursor then if block.emptyLines.isEmpty then [' '] else block.emptyLines
  else block.lineBreak ++ block.emptyLines

/-- Take the lines of a block scalar at a column.  The fuel bounds their number. -/
def takeBlockLines (folded : Bool) (column : Nat) :
    Nat → BlockText → Cursor → Option (BlockText × Cursor)
  | 0, block, cursor => some (block, cursor)
  | fuel + 1, block, cursor =>
    if cursor.column = column ∧ cursor.rest ≠ [] then do
      let (line, cursor') := cursor.takeWhile (!isBreak ·)
      let (lineBreak, cursor') := cursor'.takeBreak
      let (emptyLines, _, cursor') ←
        takeEmptyLines (some column) (cursor'.rest.length + 1) [] 0 cursor'
      let text := block.text ++ block.joint folded cursor ++ line
      takeBlockLines folded column fuel
        { text, lineBreak, emptyLines, blank := cursor.next?.any isBlank } cursor'
    else some (block, cursor)

/-- The text of a block scalar with the line breaks at its end chomped. -/
def BlockText.chomp (block : BlockText) : Chomping → List Char
  | .strip => block.text
  | .clip => block.text ++ block.lineBreak
  | .keep => block.text ++ block.lineBreak ++ block.emptyLines

/-- Take a block scalar at its mark; `indent?` is the column of the block collection around it. -/
def takeBlock (folded : Bool) (indent? : Option Nat) (cursor : Cursor) :
    Option (List Char × Cursor) := do
  let (chomping, increment?, cursor) ← takeHeader? (cursor.skip 1)
  let cursor ← cursor.skipToLineEnd?
  let cursor := cursor.takeBreak.2
  let given? := increment?.map (indent?.getD 0 + ·)
  let (emptyLines, widest, cursor) ← takeEmptyLines given? (cursor.rest.length + 1) [] 0 cursor
  let column := given?.getD (max 1 (max widest (indent?.elim 0 (· + 1))))
  let (block, cursor) ←
    takeBlockLines folded column (cursor.rest.length + 1) { emptyLines } cursor
  return (block.chomp chomping, cursor)

end QueryHooks.Yaml
