import QueryHooks.Document.ValueReader

/-!
# Reading selections

What stands behind the head of a definition: directives and a selection set.  Nothing of it is kept,
so it is only checked, one token at a time.  An open selection set needs no frame of its own: it is
enough to count them.

Main definitions: `Carrier`, `SelectionReader`, `SelectionReader.step`.
-/

namespace QueryHooks.Document

/-- What directives can stand behind, which decides what may follow them. -/
inductive Carrier where
  /-- The head of a definition; a selection set follows. -/
  | head
  /-- A field; a selection set may follow. -/
  | field
  /-- The start of an inline fragment; a selection set follows. -/
  | inline
  /-- The name of a fragment; no selection set follows. -/
  | spread
  deriving DecidableEq, Repr

/-- Whether a selection set may follow a carrier. -/
def Carrier.maySelect : Carrier → Bool
  | spread => false
  | head | field | inline => true

/-- Whether a selection set has to follow a carrier. -/
def Carrier.mustSelect : Carrier → Bool
  | head | inline => true
  | field | spread => false

/-- What comes next. -/
inductive SelectionReader where
  /-- A directive, or what may follow the directives of a carrier. -/
  | directives (carrier : Carrier)
  /-- The name of a directive. -/
  | directiveName (carrier : Carrier)
  /-- The arguments of a directive or of a field, or what follows where there are none. -/
  | arguments (carrier : Carrier)
  /-- The name of an argument, or the end of the arguments unless it would be the first. -/
  | argumentName (carrier : Carrier) (first : Bool)
  /-- The colon behind the name of an argument. -/
  | argumentColon (carrier : Carrier)
  /-- The value of an argument. -/
  | argumentValue (carrier : Carrier) (reader : ValueReader)
  /-- A selection, or the end of the selection set unless it would be the first. -/
  | selection (first : Bool)
  /-- What follows the first name of a field, which may be its alias. -/
  | fieldAlias
  /-- The name of a field behind its alias. -/
  | fieldName
  /-- What follows three dots. -/
  | fragment
  /-- The name of a type behind `on`. -/
  | typeCondition
  deriving Repr

namespace SelectionReader

/-- How far a definition has been read: how many selection sets are open, and what comes next. -/
abbrev Place := Nat × SelectionReader

/-- The place behind the head of a definition. -/
def start : Place := (0, directives .head)

/-- Take a token inside a selection set, of which `depth` are open. -/
def stepSelection (depth : Nat) (first : Bool) : Token → Option (Progress Place Unit)
  | .name _ => some (.more (depth, fieldAlias))
  | .ellipsis => some (.more (depth, fragment))
  | .punctuator '\x7d' =>
    if first then none
    else
      match depth with
      | 0 | 1 => some (.done ())
      | depth + 1 => some (.more (depth, selection false))
  | _ => none

/-- Take a token behind the directives of a carrier. -/
def stepDirectives (depth : Nat) (carrier : Carrier) (token : Token) :
    Option (Progress Place Unit) :=
  match token with
  | .punctuator '@' => some (.more (depth, directiveName carrier))
  | .punctuator '\x7b' =>
    if carrier.maySelect then some (.more (depth + 1, selection true)) else none
  | token => if carrier.mustSelect then none else stepSelection depth false token

/-- Take a token where arguments may stand. -/
def stepArguments (depth : Nat) (carrier : Carrier) (token : Token) :
    Option (Progress Place Unit) :=
  match token with
  | .punctuator '(' => some (.more (depth, argumentName carrier true))
  | token => stepDirectives depth carrier token

/-- Take a token behind three dots. -/
def stepFragment (depth : Nat) (token : Token) : Option (Progress Place Unit) :=
  match token with
  | .name chars =>
    if chars = "on".toList then some (.more (depth, typeCondition))
    else some (.more (depth, directives .spread))
  | token => stepDirectives depth .inline token

/-- Take one token, if it can come next. -/
def step (place : Place) (token : Token) : Option (Progress Place Unit) :=
  let depth := place.1
  match place.2, token with
  | directives carrier, token => stepDirectives depth carrier token
  | directiveName carrier, .name _ => some (.more (depth, arguments carrier))
  | arguments carrier, token => stepArguments depth carrier token
  | argumentName carrier _, .name _ => some (.more (depth, argumentColon carrier))
  | argumentName carrier false, .punctuator ')' => some (.more (depth, directives carrier))
  | argumentColon carrier, .punctuator ':' => some (.more (depth, argumentValue carrier .start))
  | argumentValue carrier reader, token =>
    (reader.step true token).map fun
      | .more reader => .more (depth, argumentValue carrier reader)
      | .done _ => .more (depth, argumentName carrier false)
  | selection first, token => stepSelection depth first token
  | fieldAlias, .punctuator ':' => some (.more (depth, fieldName))
  | fieldAlias, token => stepArguments depth .field token
  | fieldName, .name _ => some (.more (depth, arguments .field))
  | fragment, token => stepFragment depth token
  | typeCondition, .name _ => some (.more (depth, directives .inline))
  | _, _ => none

end SelectionReader

end QueryHooks.Document
