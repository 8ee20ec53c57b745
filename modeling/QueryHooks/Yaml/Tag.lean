import QueryHooks.Text.Digits
import QueryHooks.Yaml.Cursor
import QueryHooks.Yaml.Token

/-!
# Tags and directives

The marks by which a YAML text says what a value is, and the lines in front of a document that say
how its tags are to be read.

Main definitions: `takeTag?`, `takeDirective?`, `takeName?`.
-/

namespace QueryHooks.Yaml

open Text (natural?)

/-! ## Tags -/

/-- Whether a character can stand in a tag; some can only between angle brackets. -/
def isTagChar (bracketed : Bool) (c : Char) : Bool :=
  isWordChar c ||
    [';', '/', '?', ':', '@', '&', '=', '+', '$', '.', '!', '~', '*', '\'', '(', ')',
      '%'].contains c ||
    bracketed && [',', '[', ']'].contains c

/-- The bytes that a text of a tag stands for: a percent sign and two digits give one byte. -/
def tagBytes? : List Char → Option (List UInt8)
  | [] => some []
  | '%' :: a :: b :: rest => do
    let value ← natural? 16 [a, b]
    return value.toUInt8 :: (← tagBytes? rest)
  | c :: rest => if c = '%' then none else (tagBytes? rest).map (String.utf8EncodeChar c ++ ·)

/-- Take the text of a tag, which goes on from `before`. -/
def takeTagText? (bracketed : Bool) (before : List Char) (cursor : Cursor) :
    Option (String × Cursor) := do
  let (chars, cursor) := cursor.takeWhile (isTagChar bracketed)
  let bytes ← tagBytes? chars
  let text ← String.fromUTF8? ⟨bytes.toArray⟩
  return (String.ofList before ++ text, cursor)

/--
Take an exclamation mark and the word behind it, up to and over a second mark if there is one.
-/
def takeHandle? (cursor : Cursor) : Option (List Char × Cursor) :=
  if cursor.atChar '!' then
    let (word, cursor) := (cursor.skip 1).takeWhile isWordChar
    if cursor.atChar '!' then some ('!' :: word ++ ['!'], cursor.skip 1)
    else some ('!' :: word, cursor)
  else none

/-- Whether a text is a handle between two exclamation marks. -/
def isHandle (handle : List Char) : Bool :=
  2 ≤ handle.length && handle.getLast? == some '!'

/-- Take a tag, as its handle and its text; the tag that is only a mark has no handle. -/
def takeTagParts? (cursor : Cursor) : Option (Token × Cursor) :=
  if cursor.peek? 1 == some '<' then do
    let (text, cursor) ← takeTagText? true [] (cursor.skip 2)
    if text ≠ "" ∧ cursor.atChar '>' then return (.tag "" text, cursor.skip 1) else none
  else do
    let (handle, cursor) ← takeHandle? cursor
    if isHandle handle then
      let (text, cursor) ← takeTagText? false [] cursor
      if text = "" then none else return (.tag (String.ofList handle) text, cursor)
    else
      let (text, cursor) ← takeTagText? false handle.tail cursor
      return (if text = "" then .tag "" "!" else .tag "!" text, cursor)

/-- Take a tag; white space follows it, or a comma inside of flow collections. -/
def takeTag? (inFlow : Bool) (cursor : Cursor) : Option (Token × Cursor) := do
  let (token, cursor) ← takeTagParts? cursor
  if isGap cursor.next? || inFlow && cursor.atChar ',' then return (token, cursor) else none

/-! ## Anchors -/

/-- Take the name of an anchor behind its mark. -/
def takeName? (cursor : Cursor) : Option (String × Cursor) :=
  let (name, cursor) := (cursor.skip 1).takeWhile isWordChar
  let ends (c : Char) : Bool := ['?', ':', ',', ']', '\x7d', '%', '@', '`'].contains c
  if name ≠ [] ∧ (isGap cursor.next? ∨ cursor.next?.any ends) then some (String.ofList name, cursor)
  else none

/-! ## Directives -/

/-- Take a number of at most nine digits. -/
def takeNumber? (cursor : Cursor) : Option (Nat × Cursor) :=
  let (digits, cursor) := cursor.takeWhile Char.isDigit
  if digits.isEmpty ∨ 9 < digits.length then none
  else some (Text.decimal digits, cursor)

/-- Take what follows the name of a version directive. -/
def takeVersion? (cursor : Cursor) : Option (Token × Cursor) := do
  let (major, cursor) ← takeNumber? (cursor.skipWhile isBlank)
  if !cursor.atChar '.' then none
  else
    let (minor, cursor) ← takeNumber? (cursor.skip 1)
    return (.version major minor, cursor)

/-- Take what follows the name of a tag directive. -/
def takeHandleText? (cursor : Cursor) : Option (Token × Cursor) := do
  let (handle, cursor) ← takeHandle? (cursor.skipWhile isBlank)
  if !(isHandle handle || handle == ['!']) || !cursor.next?.any isBlank then none
  else
    let (text, cursor) ← takeTagText? true [] (cursor.skipWhile isBlank)
    if text = "" ∨ !isGap cursor.next? then none
    else return (.handle (String.ofList handle) text, cursor)

/-- Take a directive and the rest of its line. -/
def takeDirective? (cursor : Cursor) : Option (Token × Cursor) := do
  let (name, cursor) := (cursor.skip 1).takeWhile isWordChar
  if !isGap cursor.next? then none
  else
    let (token, cursor) ←
      if name = "YAML".toList then takeVersion? cursor
      else if name = "TAG".toList then takeHandleText? cursor
      else none
    let cursor ← cursor.skipToLineEnd?
    return (token, cursor.takeBreak.2)

end QueryHooks.Yaml
