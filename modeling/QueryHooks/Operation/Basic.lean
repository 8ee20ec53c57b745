import QueryHooks.Casing
import QueryHooks.Operation.Variable

/-!
# Operations

A named operation with its variables and the names of the types generated for it.

Main definitions:

- `Operation`: an operation whose variables have distinct names.
- `Operation.typeName`, `Operation.variablesTypeName`: the names its types have unless others are
  given.
- `Operation.omittable`: whether a caller may leave out the variables altogether.
- `Operation.same`: whether two operations are equal but for the order of their variables.

Main statement: a variable is found under its name and nowhere else (`Operation.find?_eq_some_iff`).
-/

namespace QueryHooks

/-- What an operation does; only queries get hooks. -/
inductive Operation.Kind where
  | query
  | mutation
  | subscription
  deriving DecidableEq, Repr

/-- The name of a kind inside the names of generated types. -/
def Operation.Kind.name : Operation.Kind → String
  | query => "Query"
  | mutation => "Mutation"
  | subscription => "Subscription"

/-- A named operation. -/
structure Operation where
  kind : Operation.Kind
  name : String
  /-- The name of the type of its result. -/
  resultType : String
  /-- The name of the type of its variables. -/
  variablesType : String
  /-- Its variables, in the order of their declarations. -/
  declared : List Variable
  distinct : (declared.map Variable.name).Nodup := by simp
  deriving DecidableEq, Repr

namespace Operation

/-- The default name of the result type: the PascalCase name followed by the kind. -/
def typeName (kind : Kind) (name : String) : String :=
  Casing.pascal name ++ kind.name

/-- The default name of the variables type. -/
def variablesTypeName (kind : Kind) (name : String) : String :=
  typeName kind name ++ "Variables"

/-- The variable with a name, if the operation declares one. -/
def find? (operation : Operation) (name : String) : Option Variable :=
  operation.declared.find? (·.name == name)

/-- Where names are distinct, a variable is found under its name. -/
theorem find?_name_of_nodup {vs : List Variable} {v : Variable} (h : (vs.map Variable.name).Nodup)
    (hmem : v ∈ vs) : vs.find? (·.name == v.name) = some v := by
  induction vs with
  | nil => exact absurd hmem List.not_mem_nil
  | cons first later ih =>
    rw [List.map_cons, List.nodup_cons] at h
    rcases List.mem_cons.1 hmem with rfl | hlater
    · simp
    · have hne : first.name ≠ v.name := by
        intro hname
        exact h.1 (hname ▸ List.mem_map_of_mem hlater)
      simp [hne, ih h.2 hlater]

/-- A variable is found under its name, since no other one has that name. -/
theorem find?_eq_some_iff {operation : Operation} {name : String} {v : Variable} :
    operation.find? name = some v ↔ v ∈ operation.declared ∧ v.name = name := by
  constructor
  · intro h
    exact ⟨List.mem_of_find?_eq_some h, by simpa using List.find?_some h⟩
  · rintro ⟨hmem, rfl⟩
    exact find?_name_of_nodup operation.distinct hmem

/-- Whether a caller may leave out all the variables. -/
def omittable (operation : Operation) : Bool :=
  operation.declared.all Variable.omittable

/-- Whether two operations declare as many variables, and each under its name in the other one. -/
def sameVariables (operation other : Operation) : Bool :=
  operation.declared.length == other.declared.length &&
    operation.declared.all fun v => other.find? v.name == some v

/-- Whether two operations are equal, where the order of their variables does not count. -/
def same (operation other : Operation) : Bool :=
  operation.kind == other.kind && operation.name == other.name &&
    operation.resultType == other.resultType && operation.sameVariables other &&
    operation.variablesType == other.variablesType

end Operation

end QueryHooks
