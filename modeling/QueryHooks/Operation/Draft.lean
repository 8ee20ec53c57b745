import QueryHooks.Operation.Basic

/-!
# Drafts of operations

An operation is put together one variable at a time.  The only mistake that can be made on the way
is to declare a variable name twice.

Main definitions: `Operation.Draft`, `Operation.Draft.addVariable`, `Operation.Draft.build`.
-/

namespace QueryHooks

/-- A variable name that an operation declares a second time. -/
structure DuplicateVariable where
  operationName : String
  variableName : String
  deriving DecidableEq, Repr

/-- The text of the error. -/
def DuplicateVariable.message (error : DuplicateVariable) : String :=
  "The `" ++ error.operationName ++ "` operation declares the `$" ++ error.variableName ++
    "` variable more than once"

/-- An operation under construction. -/
structure Operation.Draft where
  kind : Operation.Kind
  name : String
  /-- The name of the result type, if it is not to be the default. -/
  resultType? : Option String := none
  /-- The name of the variables type, if it is not to be the default. -/
  variablesType? : Option String := none
  /-- The variables added so far, in order. -/
  declared : List Variable := []
  distinct : (declared.map Variable.name).Nodup := by simp

namespace Operation.Draft

/-- Whether a variable with this name was added. -/
def declares (draft : Draft) (name : String) : Bool :=
  draft.declared.any (·.name == name)

/-- A variable with a new name leaves the names distinct. -/
theorem nodup_concat {draft : Draft} {v : Variable}
    (h : draft.declares v.name = false) :
    ((draft.declared ++ [v]).map Variable.name).Nodup := by
  rw [List.map_append, List.nodup_append]
  refine ⟨draft.distinct, by simp, ?_⟩
  simp only [declares, List.any_eq_false, beq_iff_eq] at h
  simp only [List.map_cons, List.map_nil, List.mem_map, List.mem_singleton]
  rintro _ ⟨other, hmem, rfl⟩ _ rfl
  exact h other hmem

/-- Add a variable after those added before. -/
def addVariable (draft : Draft) (v : Variable) : Except DuplicateVariable Draft :=
  if h : draft.declares v.name then
    .error ⟨draft.name, v.name⟩
  else
    .ok { draft with
      declared := draft.declared ++ [v]
      distinct := nodup_concat (by simpa using h) }

/-- Add variables in order, up to the first whose name is taken. -/
def addVariables (draft : Draft) (vs : List Variable) : Except DuplicateVariable Draft :=
  vs.foldlM addVariable draft

/-- A variable that is added comes behind those before it. -/
theorem declared_of_addVariable {draft later : Draft} {v : Variable}
    (h : draft.addVariable v = .ok later) : later.declared = draft.declared ++ [v] := by
  unfold addVariable at h
  split at h
  · simp at h
  · rw [← Except.ok.inj h]

/-- No variables leave a draft as it is. -/
theorem addVariables_nil (draft : Draft) : draft.addVariables [] = .ok draft :=
  rfl

/-- Adding two lists of variables one after the other is adding both at once. -/
theorem addVariables_append (draft : Draft) (vs later : List Variable) :
    draft.addVariables (vs ++ later) = draft.addVariables vs >>= (·.addVariables later) := by
  simp [addVariables]

/-- Give the result type a name, in place of any given before. -/
def setResultType (draft : Draft) (name : String) : Draft :=
  { draft with resultType? := some name }

/-- Give the variables type a name, in place of any given before. -/
def setVariablesType (draft : Draft) (name : String) : Draft :=
  { draft with variablesType? := some name }

/-- The operation drafted so far. -/
def build (draft : Draft) : Operation where
  kind := draft.kind
  name := draft.name
  resultType := draft.resultType?.getD (typeName draft.kind draft.name)
  variablesType := draft.variablesType?.getD (variablesTypeName draft.kind draft.name)
  declared := draft.declared
  distinct := draft.distinct

/-- An operation has the variables of the draft that it is built from. -/
@[simp]
theorem declared_build (draft : Draft) : draft.build.declared = draft.declared :=
  rfl

@[simp]
theorem declared_setResultType (draft : Draft) (name : String) :
    (draft.setResultType name).declared = draft.declared :=
  rfl

@[simp]
theorem declared_setVariablesType (draft : Draft) (name : String) :
    (draft.setVariablesType name).declared = draft.declared :=
  rfl

end Operation.Draft

end QueryHooks
