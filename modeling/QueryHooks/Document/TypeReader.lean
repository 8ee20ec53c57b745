import QueryHooks.Document.Syntax
import QueryHooks.Document.Token

/-!
# Reading types

A type is read one token at a time.  It is complete when no list is open and the next token cannot
go on with it, so its end is found by a token that is not part of it.

Main definitions: `TypeReader`, `TypeReader.step`, `TypeReader.complete?`.
-/

namespace QueryHooks.Document

/-- What was read of a type. -/
inductive TypeReader where
  /-- A type comes next; `depth` lists are open around it. -/
  | opening (depth : Nat)
  /--
  A type was read, and `depth` lists are open around it; `marked` if an exclamation mark was its
  last token.
  -/
  | closing (depth : Nat) (type : TypeSyntax) (marked : Bool)
  deriving DecidableEq, Repr

namespace TypeReader

/-- The reader in front of a type. -/
def start : TypeReader := opening 0

/-- Take one token, if the type can go on with it. -/
def step : TypeReader → Token → Option TypeReader
  | opening depth, .punctuator '[' => some (opening (depth + 1))
  | opening depth, .name chars => some (closing depth (.named (String.ofList chars)) false)
  | closing depth type false, .punctuator '!' => some (closing depth (.nonNull type) true)
  | closing (depth + 1) type _, .punctuator ']' => some (closing depth (.list type) false)
  | _, _ => none

/-- The type that was read, if no list is open. -/
def complete? : TypeReader → Option TypeSyntax
  | closing 0 type _ => some type
  | _ => none

end TypeReader

end QueryHooks.Document
