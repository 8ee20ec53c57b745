import Mathlib.Data.List.Forall2
import QueryHooks.Proofs.Emission.Ownership

/-!
# What influences a module

Of all recorded operations only the queries that no pattern excludes have a part in a module, and of
each of them only four facts: its name, the names of its two types, and whether its variables may be
left out.  What is left out takes no name either, so it cannot make an emission fail.

Main results:

- Definition `Operation.Resembles`: two operations agree in these four facts.
- Definition `Config.selected`: the queries that no pattern excludes.
- Theorem `Operation.Resembles.hooksOf_eq`: operations that resemble each other have the same hooks.
- Theorem `Config.eligible_eq_selected`: the operations that get hooks are the selected ones.
- Theorem `Emitter.emission_depends_on_selected_queries`: emitters with the same configuration whose
  selected queries resemble each other one by one emit the same.
-/

namespace QueryHooks

/-! ## Operations that resemble each other -/

/-- Two operations agree in all that their hooks show of them. -/
structure Operation.Resembles (operation other : Operation) : Prop where
  name : operation.name = other.name
  resultType : operation.resultType = other.resultType
  variablesType : operation.variablesType = other.variablesType
  omittable : operation.omittable = other.omittable

namespace Operation.Resembles

variable {operation other : Operation}

instance : Std.Refl Operation.Resembles where
  refl _ := ⟨rfl, rfl, rfl, rfl⟩

/-- Operations that resemble each other have the same type of response. -/
theorem responseType_eq (h : operation.Resembles other) (settings : Hook.Settings) :
    Hook.responseType operation settings = Hook.responseType other settings := by
  rw [Hook.responseType, Hook.responseType, h.resultType]

/-- They have the same generated key. -/
theorem generatedKey_eq (h : operation.Resembles other) :
    Hook.generatedKey operation = Hook.generatedKey other := by
  rw [Hook.generatedKey, Hook.generatedKey, h.name, h.variablesType]

/-- They have the same parameter for their variables. -/
theorem variablesParameter_eq (h : operation.Resembles other) (type : String) :
    Hook.variablesParameter operation type = Hook.variablesParameter other type := by
  rw [Hook.variablesParameter, Hook.variablesParameter, h.omittable]

/-- They have the same standard hook. -/
theorem standard_eq (h : operation.Resembles other) (settings : Hook.Settings) :
    Hook.standard operation settings = Hook.standard other settings := by
  rw [Hook.standard, Hook.standard, h.responseType_eq, h.generatedKey_eq, h.variablesParameter_eq,
    h.name, h.variablesType]

/-- They have the same infinite hook. -/
theorem infinite_eq (h : operation.Resembles other) (settings : Hook.Settings) :
    Hook.infinite operation settings = Hook.infinite other settings := by
  rw [Hook.infinite, Hook.infinite, h.responseType_eq, h.generatedKey_eq, h.variablesParameter_eq,
    h.name, h.variablesType]

/-- Operations that resemble each other have the same hooks. -/
theorem hooksOf_eq (h : operation.Resembles other) (settings : Hook.Settings) :
    hooksOf operation settings = hooksOf other settings := by
  rw [hooksOf, hooksOf, h.standard_eq, h.infinite_eq]

/-- They have them under the same settings too, since these depend on the name only. -/
theorem settingsFor_eq (h : operation.Resembles other) (config : Config) :
    config.settingsFor operation = config.settingsFor other := by
  rw [Config.settingsFor, Config.settingsFor, h.name]

end Operation.Resembles

/-! ## Selected queries -/

namespace Config

/-- Whether an operation is a query that no pattern excludes. -/
def selects (config : Config) (operation : Operation) : Bool :=
  operation.kind == .query && !config.excludes operation.name

/-- The queries among some operations that no pattern excludes. -/
def selected (config : Config) (operations : List Operation) : List Operation :=
  operations.filter config.selects

/-- That no name is looked at where there are no patterns makes no difference. -/
theorem isEligible_eq_selects (config : Config) (operation : Operation) :
    config.isEligible operation = config.selects operation := by
  cases h : config.excludeQueries.isEmpty with
  | true =>
    have hnone := PatternSet.isMatch_of_isEmpty h operation.name
    simp [isEligible, selects, exclusionEnabled, excludes, h, hnone]
  | false => simp [isEligible, selects, exclusionEnabled, excludes, h]

/-- The operations that get hooks are the selected queries. -/
theorem eligible_eq_selected (config : Config) (operations : List Operation) :
    config.eligible operations = config.selected operations := by
  rw [eligible, selected, funext config.isEligible_eq_selects]

/-- Operations that are not selected may stand anywhere between others. -/
theorem selected_between {config : Config} {discarded : List Operation}
    (h : ∀ operation ∈ discarded, config.selects operation = false) (front back : List Operation) :
    config.selected (front ++ discarded ++ back) = config.selected (front ++ back) := by
  have hnone : discarded.filter config.selects = [] := by
    rw [List.filter_eq_nil_iff]
    intro operation hoperation
    simp [h operation hoperation]
  simp [selected, hnone]

/-- An operation is selected whatever its variables are. -/
theorem selected_redeclare (config : Config) {operation : Operation} {declared : List Variable}
    (distinct : (declared.map Variable.name).Nodup)
    (h : declared.all Variable.omittable = operation.omittable) (front back : List Operation) :
    List.Forall₂ Operation.Resembles
      (config.selected (front ++ { operation with declared, distinct } :: back))
      (config.selected (front ++ operation :: back)) := by
  have hselects : config.selects { operation with declared, distinct } = config.selects operation :=
    rfl
  have hsame : Operation.Resembles { operation with declared, distinct } operation :=
    ⟨rfl, rfl, rfl, h⟩
  rw [selected, selected, List.filter_append, List.filter_append]
  refine List.rel_append (List.forall₂_refl _) ?_
  rw [List.filter_cons, List.filter_cons, hselects]
  split
  · exact .cons hsame (List.forall₂_refl _)
  · exact List.forall₂_refl _

/-- Selected queries that resemble each other one by one have the same hooks. -/
theorem hooksFor_eq_of_resembles {config : Config} {operations others : List Operation}
    (h : List.Forall₂ Operation.Resembles (config.selected operations) (config.selected others)) :
    config.hooksFor operations = config.hooksFor others := by
  rw [hooksFor, hooksFor, eligible_eq_selected, eligible_eq_selected]
  generalize config.selected operations = queries at h
  generalize config.selected others = otherQueries at h
  induction h with
  | nil => rfl
  | cons hfirst _ ih =>
    rw [List.flatMap_cons, List.flatMap_cons, ih, hfirst.settingsFor_eq config, hfirst.hooksOf_eq]

end Config

/-! ## Emission -/

namespace Emitter

/-- What is emitted is a matter of the configuration and the hooks of all recorded operations. -/
theorem emit_eq_of_recordedHooks_eq {emitter other : Emitter}
    (hconfig : emitter.config = other.config)
    (h : emitter.recordedHooks = other.recordedHooks) : emitter.emit = other.emit := by
  rw [emit, emit, hooks_eq_foldlM, hooks_eq_foldlM, h, hconfig]

/--
What is emitted depends on the selected queries only, and of these only on what their hooks show of
them.  So operations that are not selected may be inserted anywhere, and the variables of an
operation may be declared in any other way that leaves them omittable or not omittable all together.
-/
theorem emission_depends_on_selected_queries (config : Config) :
    (∀ operations others : List Operation,
      List.Forall₂ Operation.Resembles (config.selected operations) (config.selected others) →
        (Emitter.mk config ⟨operations⟩).emit = (Emitter.mk config ⟨others⟩).emit) ∧
    (∀ front discarded back : List Operation,
      (∀ operation ∈ discarded, operation.kind ≠ .query ∨ config.excludes operation.name = true) →
        (Emitter.mk config ⟨front ++ discarded ++ back⟩).emit =
          (Emitter.mk config ⟨front ++ back⟩).emit) ∧
    ∀ (front back : List Operation) (operation : Operation) (declared : List Variable)
      (distinct : (declared.map Variable.name).Nodup),
      declared.all Variable.omittable = operation.omittable →
        (Emitter.mk config ⟨front ++ { operation with declared, distinct } :: back⟩).emit =
          (Emitter.mk config ⟨front ++ operation :: back⟩).emit := by
  have hresembles (operations others : List Operation)
      (h : List.Forall₂ Operation.Resembles (config.selected operations) (config.selected others)) :
      (Emitter.mk config ⟨operations⟩).emit = (Emitter.mk config ⟨others⟩).emit :=
    emit_eq_of_recordedHooks_eq rfl (Config.hooksFor_eq_of_resembles h)
  refine ⟨hresembles, ?_, ?_⟩
  · intro front discarded back h
    have hnone : ∀ operation ∈ discarded, config.selects operation = false := by
      intro operation hoperation
      rcases h operation hoperation with hkind | hexcluded
      · simp [Config.selects, hkind]
      · simp [Config.selects, hexcluded]
    apply hresembles
    rw [Config.selected_between hnone]
    exact List.forall₂_refl _
  · intro front back operation declared distinct homittable
    exact hresembles _ _ (config.selected_redeclare distinct homittable front back)

end Emitter

/-- A configuration that excludes the queries whose names begin with `old`. -/
def excludingOld : Config where
  excludeQueries :=
    { globs := [⟨"old*", [.literal 'o', .literal 'l', .literal 'd', .anyBytes]⟩]
      parsed := by
        rw [List.forall_mem_singleton]
        cbv }
  autogenKey := true

/-- A query with one variable, which has to be given. -/
def userBy (variableName typeName : String) : Operation where
  kind := .query
  name := "user"
  resultType := "UserQuery"
  variablesType := "UserQueryVariables"
  declared := [⟨variableName, .named typeName false, none⟩]
  distinct := List.nodup_singleton _

/-- An excluded query, and a mutation whose hook would have the name of the hook of the query. -/
def discardedUsers : List Operation :=
  [{ kind := .query
     name := "old_user"
     resultType := "OldUserQuery"
     variablesType := "OldUserQueryVariables"
     declared := []
     distinct := List.nodup_nil },
   { kind := .mutation
     name := "User"
     resultType := "UserMutation"
     variablesType := "UserMutationVariables"
     declared := []
     distinct := List.nodup_nil }]

/-- The query gives the same module beside discarded operations, and with another variable. -/
theorem emit_userBy_discardedUsers :
    List.Forall₂ Operation.Resembles (excludingOld.selected [userBy "id" "ID"])
        (excludingOld.selected (discardedUsers ++ [userBy "key" "Int"])) ∧
      (∀ operation ∈ discardedUsers,
        operation.kind ≠ .query ∨ excludingOld.excludes operation.name = true) ∧
      (userBy "key" "Int").declared.all Variable.omittable = (userBy "id" "ID").omittable ∧
      (Emitter.mk excludingOld ⟨[userBy "id" "ID"]⟩).emit =
        (Emitter.mk excludingOld ⟨discardedUsers ++ [userBy "key" "Int"]⟩).emit ∧
      (Emitter.mk excludingOld ⟨[userBy "id" "ID"] ++ discardedUsers ++ []⟩).emit =
        (Emitter.mk excludingOld ⟨[userBy "id" "ID"] ++ []⟩).emit ∧
      (Emitter.mk excludingOld ⟨[] ++ userBy "key" "Int" :: []⟩).emit =
        (Emitter.mk excludingOld ⟨[] ++ userBy "id" "ID" :: []⟩).emit := by
  obtain ⟨hresembles, hdiscarded, hredeclared⟩ :=
    Emitter.emission_depends_on_selected_queries excludingOld
  have hfirst : excludingOld.selected [userBy "id" "ID"] = [userBy "id" "ID"] := by cbv
  have hsecond : excludingOld.selected (discardedUsers ++ [userBy "key" "Int"]) =
      [userBy "key" "Int"] := by cbv
  have hselected : List.Forall₂ Operation.Resembles (excludingOld.selected [userBy "id" "ID"])
      (excludingOld.selected (discardedUsers ++ [userBy "key" "Int"])) := by
    rw [hfirst, hsecond]
    exact .cons ⟨rfl, rfl, rfl, rfl⟩ .nil
  have hnone : ∀ operation ∈ discardedUsers,
      operation.kind ≠ .query ∨ excludingOld.excludes operation.name = true := by
    have hold : excludingOld.excludes "old_user" = true := by cbv
    simp [discardedUsers, hold]
  exact ⟨hselected, hnone, rfl, hresembles _ _ hselected, hdiscarded _ _ _ hnone,
    hredeclared [] [] (userBy "id" "ID") (userBy "key" "Int").declared (List.nodup_singleton _) rfl⟩

end QueryHooks
