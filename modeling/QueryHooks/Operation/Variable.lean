import QueryHooks.Operation.TypeRef

/-!
# Variables of an operation

A variable has a name, a type and possibly a default value, which is kept as document text.
-/

namespace QueryHooks

/-- A variable declared by an operation. -/
structure Variable where
  name : String
  type : TypeRef
  /-- The default value as document text, if one is declared; it may be any text. -/
  default? : Option String
  deriving DecidableEq, Repr

/-- Whether a caller may leave the variable out: it may be `null`, or it has a default value. -/
def Variable.omittable (v : Variable) : Bool :=
  v.type.nullable || v.default?.isSome

end QueryHooks
