import QueryHooks.Hook.Name

/-!
# Hooks

A generated hook is kept in its parts, so that its name and parameters can be looked at before it is
written out as a method.

Main definitions: `Hook.Parameter`, `Hook`, `Hook.source`.
-/

namespace QueryHooks

/-- A parameter in the signature of a hook. -/
structure Hook.Parameter where
  name : String
  optional : Bool
  /-- The type as it is written behind the colon. -/
  type : String
  deriving DecidableEq, Repr

namespace Hook.Parameter

/-- A parameter that has to be given. -/
def required (name type : String) : Parameter :=
  ⟨name, false, type⟩

/-- A parameter that may be left out. -/
def optionally (name type : String) : Parameter :=
  ⟨name, true, type⟩

/-- The parameter as it is written in a signature. -/
def text (parameter : Parameter) : String :=
  parameter.name ++ (if parameter.optional then "?: " else ": ") ++ parameter.type

end Hook.Parameter

/-- A hook generated for an operation. -/
structure Hook where
  name : String
  operationName : String
  variant : Hook.Variant
  parameters : List Hook.Parameter
  /-- The lines of its body, indented by one level. -/
  body : List String
  deriving DecidableEq, Repr

namespace Hook

/-- The first parameter with a name, if there is one. -/
def parameter? (hook : Hook) (name : String) : Option Parameter :=
  hook.parameters.find? (·.name == name)

/-- The parameters as they are written between the parentheses. -/
def signature (hook : Hook) : String :=
  ", ".intercalate (hook.parameters.map Parameter.text)

/-- The hook as a method of an object literal, not indented. -/
def source (hook : Hook) : String :=
  hook.name ++ "(" ++ hook.signature ++ ") \x7b\n" ++ "\n".intercalate hook.body ++ "\n\x7d"

end Hook

end QueryHooks
