import QueryHooks.Document.Position
import QueryHooks.Decimal.Binary64
import QueryHooks.Operation.Basic

/-!
# Syntax of documents

A document is a list of definitions.  Of an operation only its head is kept, since no hook depends
on what it selects; of a fragment only the name is kept.

Main definitions: `TypeSyntax`, `Value`, `OperationDefinition`, `Definition`, and the reading
`TypeRef.ofSyntax` of a written type.
-/

namespace QueryHooks.Document

/-- A type as it is written. -/
inductive TypeSyntax where
  | named (name : String)
  | list (inner : TypeSyntax)
  /-- A type with an exclamation mark. -/
  | nonNull (inner : TypeSyntax)
  deriving DecidableEq, Repr

/-- A value as it is written, where the fields of an object are in the order of their names. -/
inductive Value where
  /-- The value of a variable. -/
  | reference (name : String)
  | int (value : Int)
  | float (value : Decimal.Binary64)
  | string (value : List Char)
  | boolean (value : Bool)
  | null
  | enumeration (name : String)
  | list (items : List Value)
  | object (fields : List (String × Value))
  deriving Repr

/-- The definition of a variable. -/
structure VariableDefinition where
  name : String
  type : TypeSyntax
  default? : Option Value
  deriving Repr

/-- The definition of an operation. -/
structure OperationDefinition where
  /-- The position of its keyword, or of its brace if it has none. -/
  position : Position
  kind : Operation.Kind
  name? : Option String
  declared : List VariableDefinition
  deriving Repr

/-- A definition in a document. -/
inductive Definition where
  | operation (definition : OperationDefinition)
  | fragment (name : String)
  deriving Repr

/-- The operation that a definition defines, if it defines one. -/
def Definition.operation? : Definition → Option OperationDefinition
  | operation definition => some definition
  | fragment _ => none

/-- The name of the fragment that a definition defines, if it defines one. -/
def Definition.fragment? : Definition → Option String
  | operation _ => none
  | fragment name => some name

end QueryHooks.Document

namespace QueryHooks.TypeRef

open Document (TypeSyntax)

/-- The type that a written type stands for, where an exclamation mark above it says `nullable`. -/
def ofSyntaxAt (nullable : Bool) : TypeSyntax → TypeRef
  | .named name => named name nullable
  | .list inner => list (ofSyntaxAt true inner) nullable
  | .nonNull inner => ofSyntaxAt false inner

/-- The type that a written type stands for. -/
def ofSyntax (type : TypeSyntax) : TypeRef :=
  ofSyntaxAt true type

end QueryHooks.TypeRef
