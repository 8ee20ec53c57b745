import QueryHooks.Yaml.BlockScalar
import QueryHooks.Yaml.FlowScalar
import QueryHooks.Yaml.Tag

/-!
# Layout of a YAML text

A text is cut into tokens from left to right.  Indentation opens and closes block collections.  That
a scalar is a key shows only by the colon behind it, so the token that says so is put in front of it
afterwards; until then the place where it would stand is kept as a possible key.

Main definitions: `Layout`, `Layout.next?`, `tokens?`.
-/

namespace QueryHooks.Yaml

/-- A place at which a key may begin, if a colon follows in time. -/
structure PossibleKey where
  /-- The number of tokens in front of it. -/
  tokens : Nat
  index : Nat
  line : Nat
  column : Nat
  /-- Whether nothing but a key may stand here. -/
  required : Bool

/-- A text that is being cut into tokens. -/
structure Layout where
  cursor : Cursor
  /-- The tokens so far, the latest first. -/
  tokens : List Token := []
  /-- The columns of the open block collections, the innermost first. -/
  indents : List Nat := []
  /-- Whether a key may begin at the next token. -/
  keyAllowed : Bool := true
  /-- The possible key of the innermost flow collection, or outside of all. -/
  key? : Option PossibleKey := none
  /-- The possible keys outside of each open flow collection, the innermost first. -/
  outerKeys : List (Option PossibleKey) := []

namespace Layout

/-- Whether a flow collection is open. -/
def inFlow (layout : Layout) : Bool :=
  !layout.outerKeys.isEmpty

/-- Add a token. -/
def emit (layout : Layout) (token : Token) : Layout :=
  { layout with tokens := token :: layout.tokens }

/-- Add a token in front of which there are `count` others. -/
def insert (layout : Layout) (count : Nat) (token : Token) : Layout :=
  let later := layout.tokens.length - count
  { layout with tokens := layout.tokens.take later ++ token :: layout.tokens.drop later }

/-! ## Indentation -/

/-- Close the block collections that are indented further than a column. -/
def closeBlocks (layout : Layout) (stays : Nat → Bool) : Layout :=
  let closed := layout.indents.takeWhile (!stays ·)
  { layout with
    indents := layout.indents.drop closed.length
    tokens := closed.map (fun _ => Token.blockEnd) ++ layout.tokens }

/-- Close the block collections that end in front of the next token. -/
def unindent (layout : Layout) : Layout :=
  if layout.inFlow then layout else layout.closeBlocks (· ≤ layout.cursor.column)

/-- Open a block collection at a column, unless one is open there or further right. -/
def indent (layout : Layout) (column count : Nat) (token : Token) : Layout :=
  if layout.inFlow then layout
  else if layout.indents.head?.all (· < column) then
    { layout.insert count token with indents := column :: layout.indents }
  else layout

/-! ## Possible keys -/

/-- Give up the possible key; this fails if it was required. -/
def dropKey? (layout : Layout) : Option Layout :=
  if layout.key?.any PossibleKey.required then none else some { layout with key? := none }

/-- Note that a key may begin here. -/
def saveKey? (layout : Layout) : Option Layout :=
  let cursor := layout.cursor
  if layout.keyAllowed then do
    let layout ← layout.dropKey?
    let required := !layout.inFlow && layout.indents.head? == some cursor.column
    return { layout with
      key? := some ⟨layout.tokens.length, cursor.index, cursor.line, cursor.column, required⟩ }
  else some layout

/-- Whether a possible key is too far away; a key stands on one line and is not too long. -/
def isStale (layout : Layout) (key : PossibleKey) : Bool :=
  key.line < layout.cursor.line || key.index + 1024 < layout.cursor.index

/-- Give up the possible keys that are too far away; this fails if one of them was required. -/
def dropStaleKeys? (layout : Layout) : Option Layout :=
  let keys := layout.key? :: layout.outerKeys
  let fresh (key? : Option PossibleKey) : Option PossibleKey := key?.filter (!layout.isStale ·)
  if keys.any (·.any fun key => key.required && layout.isStale key) then none
  else some { layout with key? := fresh layout.key?, outerKeys := layout.outerKeys.map fresh }

/-! ## White space -/

/--
Go over white space and comments to the next token.  A line may begin with a byte-order mark, which
takes a column.  Tabs are not allowed where a key may begin in a block collection.  The fuel bounds
the number of lines.
-/
def skipSpace : Nat → Layout → Layout
  | 0, layout => layout
  | fuel + 1, layout =>
    let cursor := layout.cursor
    let cursor := if cursor.column == 0 && cursor.atChar '\ufeff' then cursor.skip 1 else cursor
    let tabs := layout.inFlow || !layout.keyAllowed
    let cursor := cursor.skipWhile fun c => c == ' ' || tabs && c == '\t'
    let cursor := if cursor.atChar '#' then cursor.skipWhile (!isBreak ·) else cursor
    if cursor.next?.any isBreak then
      skipSpace fuel { layout with
        cursor := cursor.takeBreak.2, keyAllowed := layout.keyAllowed || !layout.inFlow }
    else { layout with cursor }

/-! ## Tokens -/

/-- Take a mark of some characters as a token, after which a key may begin or not. -/
def take (layout : Layout) (token : Token) (length : Nat) (keyAllowed : Bool) : Layout :=
  { layout.emit token with cursor := layout.cursor.skip length, keyAllowed }

/-- Take the mark that begins or ends a document. -/
def takeDocumentMark? (layout : Layout) (token : Token) : Option Layout := do
  let layout ← (layout.closeBlocks fun _ => false).dropKey?
  return layout.take token 3 false

/-- Take a directive. -/
def takeDirective? (layout : Layout) : Option Layout := do
  let layout ← (layout.closeBlocks fun _ => false).dropKey?
  let (token, cursor) ← Yaml.takeDirective? layout.cursor
  return { layout.emit token with cursor, keyAllowed := false }

/-- Take an opening bracket. -/
def openFlow? (layout : Layout) (token : Token) : Option Layout := do
  let layout ← layout.saveKey?
  return { layout.take token 1 true with key? := none, outerKeys :=
    layout.key? :: layout.outerKeys }

/-- Take a closing bracket. -/
def closeFlow? (layout : Layout) (token : Token) : Option Layout := do
  let layout ← layout.dropKey?
  return { layout.take token 1 false with
    key? := layout.outerKeys.head?.join, outerKeys := layout.outerKeys.tail }

/-- Take a comma. -/
def takeComma? (layout : Layout) : Option Layout := do
  return (← layout.dropKey?).take .flowEntry 1 true

/-- Take the dash of an item, which may open a block sequence. -/
def takeDash? (layout : Layout) : Option Layout := do
  if !layout.inFlow && !layout.keyAllowed then none
  else
    let layout := layout.indent layout.cursor.column layout.tokens.length .blockSequenceStart
    return (← layout.dropKey?).take .blockEntry 1 true

/-- Take the question mark of a key, which may open a block mapping. -/
def takeKey? (layout : Layout) : Option Layout := do
  if !layout.inFlow && !layout.keyAllowed then none
  else
    let layout := layout.indent layout.cursor.column layout.tokens.length .blockMappingStart
    return (← layout.dropKey?).take .key 1 (!layout.inFlow)

/--
Take the colon of a value.  It turns the possible key into a key, which may open a block mapping.
-/
def takeValue? (layout : Layout) : Option Layout :=
  match layout.key? with
  | some key =>
    let layout := layout.insert key.tokens .key
    let layout := layout.indent key.column key.tokens .blockMappingStart
    some ({ layout with key? := none }.take .value 1 false)
  | none =>
    if layout.inFlow then some (layout.take .value 1 false)
    else if layout.keyAllowed then
      let layout := layout.indent layout.cursor.column layout.tokens.length .blockMappingStart
      some (layout.take .value 1 true)
    else none

/-- Take an anchor or an alias. -/
def takeAnchor? (layout : Layout) (token : String → Token) : Option Layout := do
  let layout ← layout.saveKey?
  let (name, cursor) ← takeName? layout.cursor
  return { layout.emit (token name) with cursor, keyAllowed := false }

/-- Take a tag. -/
def takeTag? (layout : Layout) : Option Layout := do
  let layout ← layout.saveKey?
  let (token, cursor) ← Yaml.takeTag? layout.inFlow layout.cursor
  return { layout.emit token with cursor, keyAllowed := false }

/-- Take a block scalar. -/
def takeBlock? (layout : Layout) (folded : Bool) : Option Layout := do
  let layout ← layout.dropKey?
  let (text, cursor) ← Yaml.takeBlock folded layout.indents.head? layout.cursor
  let style := if folded then Style.quoted else .literal
  return { layout.emit (.scalar style (String.ofList text)) with cursor, keyAllowed := true }

/-- Take a scalar in quotes. -/
def takeQuoted? (layout : Layout) (quote : Char) : Option Layout := do
  let layout ← layout.saveKey?
  let (text, cursor) ← Yaml.takeQuoted quote layout.cursor
  return { layout.emit (.scalar .quoted (String.ofList text)) with cursor, keyAllowed := false }

/-- Take a plain scalar; if it ends on a later line, a key may begin there. -/
def takePlain? (layout : Layout) : Option Layout := do
  let layout ← layout.saveKey?
  let column := layout.indents.head?.elim 0 (· + 1)
  let plain ← Yaml.takePlain layout.inFlow column layout.cursor
  return { layout.emit (.scalar .plain (String.ofList plain.text)) with
    cursor := plain.cursor, keyAllowed := plain.broken }

/-- Whether a plain scalar can begin with a character in front of another one. -/
def startsPlain (inFlow : Bool) (c : Char) (next? : Option Char) : Bool :=
  if c == '-' then !next?.any isBlank
  else if c == '?' || c == ':' then !inFlow && !isGap next?
  else !(isBlank c || isFlowMark c ||
    ['#', '&', '*', '!', '|', '>', '\'', '"', '%', '@', '`'].contains c)

/-- Take the token that begins with a character. -/
def takeAt? (layout : Layout) (c : Char) : Option Layout :=
  let next? := layout.cursor.peek? 1
  if layout.cursor.column = 0 ∧ c = '%' then layout.takeDirective?
  else if layout.cursor.atLineMark ['-', '-', '-'] then layout.takeDocumentMark? .documentStart
  else if layout.cursor.atLineMark ['.', '.', '.'] then layout.takeDocumentMark? .documentEnd
  else if c = '[' then layout.openFlow? .flowSequenceStart
  else if c = '\x7b' then layout.openFlow? .flowMappingStart
  else if c = ']' then layout.closeFlow? .flowSequenceEnd
  else if c = '\x7d' then layout.closeFlow? .flowMappingEnd
  else if c = ',' then layout.takeComma?
  else if c = '-' ∧ isGap next? then layout.takeDash?
  else if c = '?' ∧ (layout.inFlow ∨ isGap next?) then layout.takeKey?
  else if c = ':' ∧ (layout.inFlow ∨ isGap next?) then layout.takeValue?
  else if c = '*' then layout.takeAnchor? .aliasTo
  else if c = '&' then layout.takeAnchor? .anchor
  else if c = '!' then layout.takeTag?
  else if c = '|' ∧ !layout.inFlow then layout.takeBlock? false
  else if c = '>' ∧ !layout.inFlow then layout.takeBlock? true
  else if c = '\'' ∨ c = '"' then layout.takeQuoted? c
  else if startsPlain layout.inFlow c next? then layout.takePlain?
  else none

/-- Take the next token, or end the layout if there is none; the flag says whether there was one. -/
def next? (layout : Layout) : Option (Layout × Bool) := do
  let layout ← (layout.skipSpace (layout.cursor.rest.length + 1)).dropStaleKeys?
  let layout := layout.unindent
  match layout.cursor.next? with
  | some c => return (← layout.takeAt? c, true)
  | none => return (← (layout.closeBlocks fun _ => false).dropKey?, false)

/-- Take tokens up to the end of the text.  The fuel bounds their number. -/
def finish? : Nat → Layout → Option Layout
  | 0, _ => none
  | fuel + 1, layout => do
    let (layout, more) ← layout.next?
    if more then finish? fuel layout else return layout

end Layout

/-- The tokens of a text. -/
def tokens? (text : List Char) : Option (List Token) := do
  if text.all isAllowed then
    let layout ← Layout.finish? (text.length + 1) { cursor := { rest := text } }
    return layout.tokens.reverse
  else none

end QueryHooks.Yaml
