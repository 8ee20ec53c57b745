/-!
# Type references

The type that an operation declares for a variable: a named type or a list of another type, and
whether `null` is allowed at that level.

Main definitions: `TypeRef`, `TypeRef.nullable`, `TypeRef.innermost`, `TypeRef.text`.
-/

namespace QueryHooks

/-- The declared type of a variable, with the nullability of each level. -/
inductive TypeRef where
  /-- A type given by its name. -/
  | named (name : String) (nullable : Bool)
  /-- A list whose elements have the type `inner`. -/
  | list (inner : TypeRef) (nullable : Bool)
  deriving DecidableEq, Repr, Inhabited

namespace TypeRef

/-- Whether `null` is allowed at the outermost level. -/
def nullable : TypeRef → Bool
  | named _ nullable => nullable
  | list _ nullable => nullable

/-- The name under all the list levels. -/
def innermost : TypeRef → String
  | named name _ => name
  | list inner _ => inner.innermost

/-- What follows a type at a level: an exclamation mark where `null` is not allowed. -/
def mark (nullable : Bool) : String :=
  if nullable then "" else "!"

/-- The type as it is written in a document. -/
def text : TypeRef → String
  | named name nullable => name ++ mark nullable
  | list inner nullable => "[" ++ inner.text ++ "]" ++ mark nullable

@[simp]
theorem nullable_named (name : String) (nullable : Bool) :
    (named name nullable).nullable = nullable :=
  rfl

@[simp]
theorem nullable_list (inner : TypeRef) (nullable : Bool) :
    (list inner nullable).nullable = nullable :=
  rfl

end TypeRef

end QueryHooks
