import Mathlib.Data.List.Induction
import QueryHooks.Proofs.Operation.Draft

/-!
# Steps of a draft

A draft is given variables and names of types in any order.  Names of types never fail and only the
last of each counts; a variable fails if its name is taken, and nothing else does.  The invariant of
a run ties the draft to all steps behind it: its variables are exactly those that were added, in
their order.

Main results:

- Definition `Operation.Draft.takeAll`: a draft behind some steps, up to the first that fails.
- Definition `Operation.IsDraftedBy`: an operation is what some steps say.
- Theorem `Operation.Draft.Holds.take`: each step keeps the invariant.
- Theorem `Operation.Draft.take_eq_error_iff`: which steps fail.
- Theorem `Operation.drafting_stops_at_first_repeated_name`: what comes of any steps.
-/

namespace QueryHooks.Operation

namespace Draft

/-! ## Steps -/

/-- Something that a draft is given. -/
inductive Step where
  | declare (v : Variable)
  | resultType (name : String)
  | variablesType (name : String)
  deriving DecidableEq

/-- The draft behind a step, unless the step fails. -/
def take (draft : Draft) : Step → Except DuplicateVariable Draft
  | .declare v => draft.addVariable v
  | .resultType name => .ok (draft.setResultType name)
  | .variablesType name => .ok (draft.setVariablesType name)

/-- The draft behind some steps, up to the first that fails. -/
def takeAll (draft : Draft) (steps : List Step) : Except DuplicateVariable Draft :=
  steps.foldlM take draft

/-- Steps are taken one list behind the other. -/
theorem takeAll_append (draft : Draft) (steps later : List Step) :
    draft.takeAll (steps ++ later) = draft.takeAll steps >>= (·.takeAll later) := by
  simp [takeAll]

theorem takeAll_singleton (draft : Draft) (step : Step) :
    draft.takeAll [step] = draft.take step := by
  simp [takeAll]

namespace Step

/-- The variable that a step adds, if it adds one. -/
def declared? : Step → Option Variable
  | declare v => some v
  | resultType _ | variablesType _ => none

/-- The name that a step gives to the result type, if it gives one. -/
def resultType? : Step → Option String
  | resultType name => some name
  | declare _ | variablesType _ => none

/-- The name that a step gives to the variables type, if it gives one. -/
def variablesType? : Step → Option String
  | variablesType name => some name
  | declare _ | resultType _ => none

end Step

/-- The variables that some steps add, in order. -/
def added (steps : List Step) : List Variable :=
  steps.filterMap Step.declared?

/-- The last name that some steps give to the result type. -/
def lastResultType? (steps : List Step) : Option String :=
  (steps.filterMap Step.resultType?).getLast?

/-- The last name that some steps give to the variables type. -/
def lastVariablesType? (steps : List Step) : Option String :=
  (steps.filterMap Step.variablesType?).getLast?

/-! ## The invariant of a run -/

/-- A draft of an operation is what some steps say. -/
structure Holds (kind : Kind) (name : String) (steps : List Step) (draft : Draft) : Prop where
  kind_eq : draft.kind = kind
  name_eq : draft.name = name
  declared_eq : draft.declared = added steps
  resultType?_eq : draft.resultType? = lastResultType? steps
  variablesType?_eq : draft.variablesType? = lastVariablesType? steps

variable {kind : Kind} {name : String} {steps : List Step} {draft later : Draft}

/-- A draft without steps has just its kind and its name. -/
theorem holds_nil (kind : Kind) (name : String) : Holds kind name [] { kind, name } :=
  ⟨rfl, rfl, rfl, rfl, rfl⟩

/-- A step fails exactly if it adds a variable whose name is taken, and the error says so. -/
theorem take_eq_error_iff {step : Step} {error : DuplicateVariable} :
    draft.take step = .error error ↔
      ∃ v, step = .declare v ∧ v.name ∈ draft.declared.map Variable.name ∧
        error = ⟨draft.name, v.name⟩ := by
  cases step with
  | resultType name => simp [take]
  | variablesType name => simp [take]
  | declare v =>
    by_cases htaken : v.name ∈ draft.declared.map Variable.name
    · rw [take, addVariable_eq_error htaken, Except.error.injEq]
      constructor
      · rintro rfl
        exact ⟨v, rfl, htaken, rfl⟩
      · rintro ⟨_, ⟨⟩, _, rfl⟩
        rfl
    · have hfree : draft.declares v.name = false := by
        rw [Bool.eq_false_iff, ne_eq, declares_iff]
        exact htaken
      rw [take, addVariable, dif_neg (by simp [hfree])]
      constructor
      · exact fun h => absurd h (by simp)
      · rintro ⟨_, ⟨⟩, hmem, _⟩
        exact absurd hmem htaken

/-- Each step keeps the draft what the steps say. -/
theorem Holds.take {step : Step} (h : Holds kind name steps draft)
    (hstep : draft.take step = .ok later) :
    Holds kind name (steps ++ [step]) later := by
  cases step with
  | resultType name =>
    obtain rfl := Except.ok.inj hstep
    refine ⟨h.kind_eq, h.name_eq, ?_, ?_, ?_⟩
    · simp [h.declared_eq, added, Step.declared?]
    · simp [setResultType, lastResultType?, Step.resultType?]
    · simp [setResultType, h.variablesType?_eq, lastVariablesType?, Step.variablesType?]
  | variablesType name =>
    obtain rfl := Except.ok.inj hstep
    refine ⟨h.kind_eq, h.name_eq, ?_, ?_, ?_⟩
    · simp [h.declared_eq, added, Step.declared?]
    · simp [setVariablesType, h.resultType?_eq, lastResultType?, Step.resultType?]
    · simp [setVariablesType, lastVariablesType?, Step.variablesType?]
  | declare v =>
    rw [Draft.take, addVariable] at hstep
    split at hstep
    · exact absurd hstep (by simp)
    · obtain rfl := Except.ok.inj hstep
      refine ⟨h.kind_eq, h.name_eq, ?_, ?_, ?_⟩
      · simp [h.declared_eq, added, Step.declared?]
      · simp [h.resultType?_eq, lastResultType?, Step.resultType?]
      · simp [h.variablesType?_eq, lastVariablesType?, Step.variablesType?]

/-! ## Runs -/

/-- One step more is taken by the draft that the steps before it gave. -/
theorem takeAll_concat_of_ok {step : Step} (h : draft.takeAll steps = .ok later) :
    draft.takeAll (steps ++ [step]) = later.take step := by
  rw [takeAll_append, h]
  exact takeAll_singleton later step

/-- A run in which no step fails ends in a draft that is what the steps say. -/
theorem holds_of_takeAll (h : takeAll { kind, name } steps = .ok draft) :
    Holds kind name steps draft := by
  induction steps using List.reverseRecOn generalizing draft with
  | nil =>
    obtain rfl := Except.ok.inj h
    exact holds_nil kind name
  | append_singleton steps step ih =>
    cases hrun : takeAll { kind, name } steps with
    | error error => simp [takeAll_append, hrun, bind, Except.bind] at h
    | ok between =>
      rw [takeAll_concat_of_ok hrun] at h
      exact (ih hrun).take h

/-- No step fails if the variables that are added have distinct names. -/
theorem exists_takeAll_of_nodup (kind : Kind) (name : String)
    (h : ((added steps).map Variable.name).Nodup) :
    ∃ draft, takeAll { kind, name } steps = .ok draft := by
  induction steps using List.reverseRecOn with
  | nil => exact ⟨_, rfl⟩
  | append_singleton steps step ih =>
    have hsplit : added (steps ++ [step]) = added steps ++ step.declared?.toList := by
      cases hstep : step.declared? <;> simp [added, hstep]
    rw [hsplit, List.map_append, List.nodup_append] at h
    obtain ⟨between, hrun⟩ := ih h.1
    rw [takeAll_concat_of_ok hrun]
    cases htake : between.take step with
    | ok later => exact ⟨later, rfl⟩
    | error error =>
      obtain ⟨v, rfl, htaken, _⟩ := take_eq_error_iff.1 htake
      rw [(holds_of_takeAll hrun).declared_eq] at htaken
      exact absurd rfl (h.2.2 _ htaken v.name (by simp [Step.declared?]))

/--
If the variables that are added do not have distinct names, then the first that is added under a
name of an earlier one fails, behind steps that do not.
-/
theorem exists_takeAll_eq_error (kind : Kind) (name : String)
    (h : ¬((added steps).map Variable.name).Nodup) :
    ∃ front v back between, steps = front ++ .declare v :: back ∧
      takeAll { kind, name } front = .ok between ∧ v.name ∈ (added front).map Variable.name ∧
      between.take (.declare v) = .error ⟨name, v.name⟩ ∧
      takeAll { kind, name } steps = .error ⟨name, v.name⟩ := by
  induction steps using List.reverseRecOn with
  | nil => exact absurd List.nodup_nil h
  | append_singleton steps step ih =>
    by_cases hnodup : ((added steps).map Variable.name).Nodup
    · obtain ⟨between, hrun⟩ := exists_takeAll_of_nodup kind name hnodup
      cases htake : between.take step with
      | ok later =>
        rw [← takeAll_concat_of_ok hrun] at htake
        have hdistinct := later.distinct
        rw [(holds_of_takeAll htake).declared_eq] at hdistinct
        exact absurd hdistinct h
      | error error =>
        obtain ⟨v, rfl, htaken, herror⟩ := take_eq_error_iff.1 htake
        have hholds := holds_of_takeAll hrun
        rw [hholds.name_eq] at herror
        rw [hholds.declared_eq] at htaken
        rw [herror] at htake
        refine ⟨steps, v, [], between, rfl, hrun, htaken, htake, ?_⟩
        rw [takeAll_concat_of_ok hrun, htake]
    · obtain ⟨front, v, back, between, rfl, hrun, htaken, htake, hfail⟩ := ih hnodup
      refine ⟨front, v, back ++ [step], between, by simp, hrun, htaken, htake, ?_⟩
      rw [takeAll_append, hfail]
      rfl

end Draft

/-! ## Operations -/

open Draft (added lastResultType? lastVariablesType?)

/-- An operation of a kind and a name is what some steps say. -/
structure IsDraftedBy (kind : Kind) (name : String) (steps : List Draft.Step)
    (operation : Operation) :
    Prop where
  kind_eq : operation.kind = kind
  name_eq : operation.name = name
  /-- Its variables are those that were added, in order. -/
  declared_eq : operation.declared = added steps
  /-- Each of them is found under its name, and nothing else is found. -/
  find?_eq_some_iff : ∀ n v, operation.find? n = some v ↔ v ∈ added steps ∧ v.name = n
  resultType_eq : operation.resultType = (lastResultType? steps).getD (typeName kind name)
  variablesType_eq :
    operation.variablesType = (lastVariablesType? steps).getD (variablesTypeName kind name)
  omittable_iff : operation.omittable = true ↔
    ∀ v ∈ added steps, v.type.nullable = true ∨ ∃ text, v.default? = some text

/-- What a draft holds is what the operation built from it was drafted by. -/
theorem Draft.Holds.isDraftedBy {kind : Kind} {name : String} {steps : List Draft.Step}
    {draft : Draft} (h : Draft.Holds kind name steps draft) :
    draft.build.IsDraftedBy kind name steps where
  kind_eq := h.kind_eq
  name_eq := h.name_eq
  declared_eq := h.declared_eq
  find?_eq_some_iff := by
    intro n v
    rw [Operation.find?_eq_some_iff, Draft.declared_build, h.declared_eq]
  resultType_eq := by rw [Draft.build, h.resultType?_eq, h.kind_eq, h.name_eq]
  variablesType_eq := by rw [Draft.build, h.variablesType?_eq, h.kind_eq, h.name_eq]
  omittable_iff := by
    rw [omittable, List.all_eq_true, Draft.declared_build, h.declared_eq]
    simp [Variable.omittable, Option.isSome_iff_exists]

/--
No step of drafting an operation fails exactly if the variables that are added have distinct names,
and then the operation is what the steps say.  Otherwise the first step that fails is the first that
adds a variable under a name that was added before it, and the error names the operation and that
variable.
-/
theorem drafting_stops_at_first_repeated_name (kind : Kind) (name : String)
    (steps : List Draft.Step) :
    ((∃ draft, Draft.takeAll { kind, name } steps = .ok draft) ↔
      ((added steps).map Variable.name).Nodup) ∧
    (∀ draft, Draft.takeAll { kind, name } steps = .ok draft →
      draft.build.IsDraftedBy kind name steps) ∧
    (¬((added steps).map Variable.name).Nodup →
      ∃ front v back between, steps = front ++ .declare v :: back ∧
        Draft.takeAll { kind, name } front = .ok between ∧
        ((added front).map Variable.name).Nodup ∧ v.name ∈ (added front).map Variable.name ∧
        between.take (.declare v) = .error ⟨name, v.name⟩ ∧
        Draft.takeAll { kind, name } steps = .error ⟨name, v.name⟩) := by
  have hdistinct {taken : List Draft.Step} {draft : Draft}
      (hrun : Draft.takeAll { kind, name } taken = .ok draft) :
      ((added taken).map Variable.name).Nodup := by
    rw [← (Draft.holds_of_takeAll hrun).declared_eq]
    exact draft.distinct
  refine ⟨⟨?_, Draft.exists_takeAll_of_nodup kind name⟩, ?_, ?_⟩
  · rintro ⟨draft, hrun⟩
    exact hdistinct hrun
  · intro draft hrun
    exact (Draft.holds_of_takeAll hrun).isDraftedBy
  · intro hrepeats
    obtain ⟨front, v, back, between, hsteps, hrun, htaken, htake, hfail⟩ :=
      Draft.exists_takeAll_eq_error kind name hrepeats
    exact ⟨front, v, back, between, hsteps, hrun, hdistinct hrun, htaken, htake, hfail⟩

end QueryHooks.Operation
