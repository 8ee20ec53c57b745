import QueryHooks.Document.StringValue
import QueryHooks.Document.Syntax
import QueryHooks.Document.Token

/-!
# Reading values

A value is read one token at a time.  What is open around the value that comes next is kept on a
stack, the innermost list or object first, so a value of any depth is read by a fold over its
tokens.

Main definitions: `Progress`, `Value.ofToken?`, `ValueReader`, `ValueReader.step`.
-/

namespace QueryHooks.Document

/-- What comes of giving a reader a token that it can take. -/
inductive Progress (ρ α : Type) where
  /-- More tokens are needed. -/
  | more (reader : ρ)
  /-- The token was the last one. -/
  | done (result : α)

/-! ## Values of a single token -/

namespace Value

/-- The value of a name: one of the three words, or the name of an enumeration value. -/
def ofName (chars : List Char) : Value :=
  if chars = "true".toList then boolean true
  else if chars = "false".toList then boolean false
  else if chars = "null".toList then null
  else enumeration (String.ofList chars)

/-- The value of a number literal, unless it is a whole number that does not fit into 64 bits. -/
def ofNumber? (number : Number) : Option Value :=
  if number.isInteger then
    if Decimal.fitsSigned 63 number.toInt then some (int number.toInt) else none
  else some (float number.toBinary64)

/-- The value that a token is by itself. -/
def ofToken? : Token → Option Value
  | .name chars => some (ofName chars)
  | .number chars => (Number.parse? chars).bind ofNumber?
  | .string chars => (decodeQuoted? chars).map string
  | .block chars => (decodeBlock? chars).map string
  | .punctuator _ => none
  | .ellipsis => none

/--
Set a field of an object whose fields are in the order of their names.  A field with the same name
is replaced.
-/
def insertField (name : String) (value : Value) : List (String × Value) → List (String × Value)
  | [] => [(name, value)]
  | field :: fields =>
    if name < field.1 then (name, value) :: field :: fields
    else if name = field.1 then (name, value) :: fields
    else field :: insertField name value fields

end Value

/-! ## Values of several tokens -/

/-- A list or an object that is open, with what was read of it. -/
inductive ValueFrame where
  /-- A list with its items, the latest first. -/
  | list (items : List Value)
  /-- An object of which the field `name` is being read. -/
  | field (name : String) (fields : List (String × Value))
  deriving Repr

/-- What comes next in a value; the frames around it are listed from the inside out. -/
inductive ValueReader where
  /-- A value, or the end of the list that is open. -/
  | value (frames : List ValueFrame)
  /-- The name behind a dollar sign. -/
  | reference (frames : List ValueFrame)
  /-- The name of a field, or the end of the object. -/
  | fieldName (fields : List (String × Value)) (frames : List ValueFrame)
  /-- The colon behind the name of a field. -/
  | fieldColon (name : String) (fields : List (String × Value)) (frames : List ValueFrame)
  deriving Repr

namespace ValueReader

/-- The reader in front of a value. -/
def start : ValueReader := value []

/-- Put a value that is complete into the innermost frame, or be done if there is none. -/
def close (result : Value) : List ValueFrame → Progress ValueReader Value
  | [] => .done result
  | .list items :: frames => .more (value (.list (result :: items) :: frames))
  | .field name fields :: frames => .more (fieldName (Value.insertField name result fields) frames)

/--
Take a token where a value comes next; `references` says whether values of variables are allowed.
-/
def stepValue (references : Bool) (frames : List ValueFrame) (token : Token) :
    Option (Progress ValueReader Value) :=
  match token with
  | .punctuator '[' => some (.more (value (.list [] :: frames)))
  | .punctuator '\x7b' => some (.more (fieldName [] frames))
  | .punctuator ']' =>
    match frames with
    | .list items :: frames => some (close (.list items.reverse) frames)
    | _ => none
  | .punctuator '$' => if references then some (.more (reference frames)) else none
  | token => (Value.ofToken? token).map (close · frames)

/-- Take one token, if it can come next. -/
def step (references : Bool) (reader : ValueReader) (token : Token) :
    Option (Progress ValueReader Value) :=
  match reader, token with
  | value frames, token => stepValue references frames token
  | reference frames, .name chars => some (close (.reference (String.ofList chars)) frames)
  | fieldName fields frames, .name chars =>
    some (.more (fieldColon (String.ofList chars) fields frames))
  | fieldName fields frames, .punctuator '\x7d' => some (close (.object fields) frames)
  | fieldColon name fields frames, .punctuator ':' =>
    some (.more (value (.field name fields :: frames)))
  | _, _ => none

end ValueReader

end QueryHooks.Document
