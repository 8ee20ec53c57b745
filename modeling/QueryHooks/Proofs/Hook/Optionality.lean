import Mathlib
import QueryHooks.Hook.Generation
import QueryHooks.Proofs.Operation.Loading

/-!
# Optional parameters

A caller of a hook may leave out the variables if each of them may be left out by itself: its type
allows `null`, or it has a default value.  Only the outermost level of the type counts, and only
that there is a default value and not which one.  Behind a parameter that may be left out, all
others may be left out too.

Main results:

- Definition `VariableDefinition.MayBeLeftOut`: a variable may be left out, as the document says it.
- Theorem `TypeRef.nullable_ofSyntax_iff`: a type allows `null` unless it is written as one that
  does not.
- Theorem `Operation.Carries.omittable_iff`: when all variables of an operation may be left out.
- Theorem `Hook.singleton_variables`: a hook has one parameter for the variables.
- Theorem `variables_are_optional_iff`: the parameters of the hooks of a document.
-/

namespace QueryHooks

/-! ## Variables that may be left out -/

namespace Document

/-- A written type that does not allow `null` itself, whatever the types inside of it allow. -/
def TypeSyntax.IsNonNull (type : TypeSyntax) : Prop :=
  ∃ inner, type = .nonNull inner

/-- The type of a variable allows `null`, or there is a default value. -/
def VariableDefinition.MayBeLeftOut (definition : VariableDefinition) : Prop :=
  ¬definition.type.IsNonNull ∨ ∃ value, definition.default? = some value

end Document

open Document (OperationDefinition TypeSyntax VariableDefinition)

namespace TypeRef

/-- Below an exclamation mark, nothing makes the outermost level allow `null` again. -/
theorem nullable_ofSyntaxAt_false (type : TypeSyntax) :
    (ofSyntaxAt false type).nullable = false := by
  induction type with
  | named name => rfl
  | list inner => rfl
  | nonNull inner ih => exact ih

/-- A type may be null if no exclamation mark is its last token. -/
theorem nullable_ofSyntax_iff {type : TypeSyntax} :
    (ofSyntax type).nullable = true ↔ ¬type.IsNonNull := by
  cases type with
  | named name => simp [ofSyntax, ofSyntaxAt, TypeSyntax.IsNonNull]
  | list inner => simp [ofSyntax, ofSyntaxAt, TypeSyntax.IsNonNull]
  | nonNull inner =>
    simp [ofSyntax, ofSyntaxAt, nullable_ofSyntaxAt_false, TypeSyntax.IsNonNull]

end TypeRef

/-- A variable may be left out if its definition says so. -/
theorem Variable.Carries.omittable_iff {definition : VariableDefinition} {v : Variable}
    (h : v.Carries definition) : v.omittable = true ↔ definition.MayBeLeftOut := by
  rw [omittable, Bool.or_eq_true, h.type_eq, h.default_eq, TypeRef.nullable_ofSyntax_iff,
    Option.isSome_iff_exists, VariableDefinition.MayBeLeftOut]

/-- All of some variables may be left out exactly if each one may by its definition. -/
theorem Variable.forall_omittable_iff {definitions : List VariableDefinition} {vs : List Variable}
    (h : List.Forall₂ Carries definitions vs) :
    (∀ v ∈ vs, v.omittable = true) ↔ ∀ definition ∈ definitions, definition.MayBeLeftOut := by
  induction h with
  | nil => simp
  | cons hfirst _ ih => rw [List.forall_mem_cons, List.forall_mem_cons, hfirst.omittable_iff, ih]

/-- All variables of an operation may be left out if each of its definitions says so. -/
theorem Operation.Carries.omittable_iff {affixes : Affixes} {definition : OperationDefinition}
    {operation : Operation} (h : operation.Carries affixes definition) :
    operation.omittable = true ↔ ∀ v ∈ definition.declared, v.MayBeLeftOut := by
  rw [omittable, List.all_eq_true, Variable.forall_omittable_iff h.declared]

/-! ## Parameters -/

namespace Hook

/-- The parameters for the variables. -/
def variablesParameters (hook : Hook) : List Parameter :=
  hook.parameters.filter (·.name == "variables")

/-- Behind a parameter that may be left out, all others may be left out too. -/
def OptionalLast (hook : Hook) : Prop :=
  hook.parameters.Pairwise fun earlier later => earlier.optional = true → later.optional = true

variable {operation : Operation} {settings : Settings} {hook : Hook}

/-- A hook has one parameter for the variables, which is as optional as they are. -/
theorem exists_variablesParameters_eq (h : hook ∈ hooksOf operation settings) :
    ∃ type, hook.variablesParameters = [variablesParameter operation type] := by
  rw [hooksOf, List.mem_cons] at h
  rcases h with rfl | hinfinite
  · refine ⟨operation.variablesType ++ " | null", ?_⟩
    cases hkey : settings.autogenKey <;>
      simp [variablesParameters, standard, hkey, variablesParameter, Parameter.required,
        Parameter.optionally]
  · obtain ⟨_, rfl⟩ : settings.infinite = true ∧ hook = infinite operation settings := by
      cases hpaged : settings.infinite <;> simp_all
    refine ⟨operation.variablesType, ?_⟩
    cases hkey : settings.autogenKey <;>
      simp [variablesParameters, infinite, hkey, variablesParameter, Parameter.required,
        Parameter.optionally]

/-- In the hooks of an operation, parameters that may be left out come last. -/
theorem optionalLast_of_mem_hooksOf (h : hook ∈ hooksOf operation settings) :
    hook.OptionalLast := by
  rw [hooksOf, List.mem_cons] at h
  rcases h with rfl | hinfinite
  · cases hkey : settings.autogenKey <;>
      simp [OptionalLast, standard, hkey, variablesParameter, Parameter.required,
        Parameter.optionally]
  · obtain ⟨_, rfl⟩ : settings.infinite = true ∧ hook = infinite operation settings := by
      cases hpaged : settings.infinite <;> simp_all
    cases hkey : settings.autogenKey <;>
      simp [OptionalLast, infinite, hkey, variablesParameter, Parameter.required,
        Parameter.optionally]

end Hook

/-! ## Documents -/

/--
A document that is loaded defines its operations in order.  Under any settings, each hook of one of
them has a single parameter for the variables, which is optional exactly if every variable in the
definition of that operation may be left out, and no parameter that is required stands behind an
optional one.
-/
theorem variables_are_optional_iff {affixes : Affixes} {path? : Option Path} {text : String}
    {operations : List Operation} (hload : loadText affixes path? text = .ok operations) :
    ∃ definitions, Document.parse text = .ok definitions ∧
      List.Forall₂
        (fun (definition : OperationDefinition) (operation : Operation) =>
          definition.kind = operation.kind ∧ definition.name? = some operation.name ∧
          ∀ (settings : Hook.Settings), ∀ hook ∈ hooksOf operation settings,
            (∃ parameter, hook.variablesParameters = [parameter] ∧
              (parameter.optional = true ↔ ∀ v ∈ definition.declared, v.MayBeLeftOut)) ∧
            hook.OptionalLast)
        (definitions.filterMap Document.Definition.operation?) operations := by
  obtain ⟨definitions, hparse, hcarries⟩ := exists_carries_of_loadText hload
  refine ⟨definitions, hparse, hcarries.imp ?_⟩
  intro definition operation hcarried
  refine ⟨hcarried.kind_eq.symm, hcarried.name_eq, ?_⟩
  intro settings hook hhook
  obtain ⟨type, hparameters⟩ := Hook.exists_variablesParameters_eq hhook
  refine ⟨⟨_, hparameters, ?_⟩, Hook.optionalLast_of_mem_hooksOf hhook⟩
  exact hcarried.omittable_iff

/--
A query with a list of items that are not `null`, and with an empty string as a default value.
-/
def optionalQuery : Operation where
  kind := .query
  name := "q"
  resultType := "QQuery"
  variablesType := "QQueryVariables"
  declared := [⟨"a", .list (.named "I" false) true, none⟩, ⟨"b", .named "I" false, some "\"\""⟩]

/-- The definition of that query. -/
def optionalDefinition : OperationDefinition where
  position := ⟨1, 1⟩
  kind := .query
  name? := some "q"
  declared :=
    [⟨"a", .list (.nonNull (.named "I")), none⟩, ⟨"b", .nonNull (.named "I"), some (.string [])⟩]

/-- The query as it is read. -/
theorem parse_optionalDefinition :
    Document.parse "query q($a: [I!], $b: I! = \"\") { f }" =
      .ok [.operation optionalDefinition] := by
  have hscan : Document.scan "query q($a: [I!], $b: I! = \"\") { f }".toList =
      ⟨[⟨⟨1, 1⟩, .name "query".toList⟩, ⟨⟨1, 7⟩, .name ['q']⟩, ⟨⟨1, 8⟩, .punctuator '('⟩,
        ⟨⟨1, 9⟩, .punctuator '$'⟩, ⟨⟨1, 10⟩, .name ['a']⟩, ⟨⟨1, 11⟩, .punctuator ':'⟩,
        ⟨⟨1, 13⟩, .punctuator '['⟩, ⟨⟨1, 14⟩, .name ['I']⟩, ⟨⟨1, 15⟩, .punctuator '!'⟩,
        ⟨⟨1, 16⟩, .punctuator ']'⟩, ⟨⟨1, 19⟩, .punctuator '$'⟩, ⟨⟨1, 20⟩, .name ['b']⟩,
        ⟨⟨1, 21⟩, .punctuator ':'⟩, ⟨⟨1, 23⟩, .name ['I']⟩, ⟨⟨1, 24⟩, .punctuator '!'⟩,
        ⟨⟨1, 26⟩, .punctuator '='⟩, ⟨⟨1, 28⟩, .string []⟩, ⟨⟨1, 30⟩, .punctuator ')'⟩,
        ⟨⟨1, 32⟩, .punctuator '\x7b'⟩, ⟨⟨1, 34⟩, .name ['f']⟩, ⟨⟨1, 36⟩, .punctuator '\x7d'⟩],
        .endOfText ⟨1, 37⟩⟩ := by
    cbv
  rw [Document.parse, hscan]
  rfl

/--
That items are not `null` does not make the variables required, and an empty default value is one.
-/
theorem variables_of_optionalQuery :
    loadText {} none "query q($a: [I!], $b: I! = \"\") { f }" = .ok [optionalQuery] ∧
      ∀ settings, ∀ hook ∈ hooksOf optionalQuery settings,
        ∃ parameter, hook.variablesParameters = [parameter] ∧ parameter.optional = true := by
  have hload : loadText {} none "query q($a: [I!], $b: I! = \"\") { f }" = .ok [optionalQuery] := by
    rw [loadText, parse_optionalDefinition]
    decide
  obtain ⟨definitions, hparse, hall⟩ := variables_are_optional_iff hload
  obtain rfl := Except.ok.inj (parse_optionalDefinition.symm.trans hparse)
  have hmayBeLeftOut : ∀ v ∈ optionalDefinition.declared, v.MayBeLeftOut := by
    simp [optionalDefinition, VariableDefinition.MayBeLeftOut, TypeSyntax.IsNonNull]
  obtain ⟨⟨_, _, hhooks⟩, _⟩ := List.forall₂_cons.1 hall
  refine ⟨hload, ?_⟩
  intro settings hook hhook
  obtain ⟨⟨parameter, hparameter, hiff⟩, _⟩ := hhooks settings hook hhook
  exact ⟨parameter, hparameter, hiff.2 hmayBeLeftOut⟩

end QueryHooks
