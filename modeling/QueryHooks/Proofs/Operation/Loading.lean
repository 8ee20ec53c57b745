import QueryHooks.Operation.Loading
import QueryHooks.Proofs.Document.Crashes
import QueryHooks.Proofs.Operation.Draft

/-!
# Loading all operations or none

A document is loaded as a whole.  A definition of an operation is faulty if it has no name or if it
declares a variable name twice; the operations of a document are loaded if none of its definitions
is faulty, and otherwise each faulty definition is reported once.  Neither operations nor errors
come of a text that ends the program.

Main results:

- Theorem `foldl_push`: the values and the errors among some outcomes are kept apart, each in order.
- Theorem `allOrErrors_eq_ok_iff` and theorem `allOrErrors_eq_error_iff`: there are values if no
  outcome is an error, and otherwise there are all errors.
- Theorem `ofDefinition_of_not_faulty` and theorem `ofDefinition_of_faulty`: what one definition
  gives.
- Theorem `loadText_eq_ok_iff`: when a document gives some operations.
- Theorem `loadText_all_or_nothing`: what a text gives, and when it ends the program.
- Theorem `loadText_crashes`: a text that ends the program.
-/

namespace QueryHooks

/-! ## All values or all errors -/

section Outcomes

variable {ε α : Type}

/-- The values among some outcomes. -/
def valuesOf (outcomes : List (Except ε α)) : List α :=
  outcomes.filterMap fun
    | .ok value => some value
    | .error _ => none

/-- The errors among some outcomes. -/
def errorsOf (outcomes : List (Except ε α)) : List ε :=
  outcomes.filterMap fun
    | .ok _ => none
    | .error error => some error

/-- Going through outcomes puts their values and errors behind those met before. -/
theorem foldl_push (results : Results ε α) (outcomes : List (Except ε α)) :
    outcomes.foldl Results.push results =
      ⟨results.values ++ valuesOf outcomes, results.errors ++ errorsOf outcomes⟩ := by
  induction outcomes generalizing results with
  | nil => simp [valuesOf, errorsOf]
  | cons outcome outcomes ih =>
    rw [List.foldl_cons, ih]
    cases outcome <;> simp [Results.push, valuesOf, errorsOf]

/-- All values are given if there is no error, and otherwise all errors. -/
theorem allOrErrors_eq (outcomes : List (Except ε α)) :
    allOrErrors outcomes =
      if (errorsOf outcomes).isEmpty then .ok (valuesOf outcomes)
      else .error (errorsOf outcomes) := by
  simp [allOrErrors, foldl_push]

@[simp]
theorem valuesOf_map_ok (values : List α) :
    valuesOf (values.map .ok : List (Except ε α)) = values := by
  simp [valuesOf]

@[simp]
theorem errorsOf_map_ok (values : List α) :
    errorsOf (values.map .ok : List (Except ε α)) = [] := by
  simp [errorsOf]

/-- Outcomes without an error are the values among them. -/
theorem eq_map_ok_of_errorsOf_eq_nil {outcomes : List (Except ε α)} (h : errorsOf outcomes = []) :
    outcomes = (valuesOf outcomes).map .ok := by
  induction outcomes with
  | nil => rfl
  | cons outcome outcomes ih =>
    cases outcome with
    | error error => simp [errorsOf] at h
    | ok value =>
      have hlater : errorsOf outcomes = [] := by simpa [errorsOf] using h
      simpa [valuesOf] using ih hlater

/-- There are values exactly if no outcome is an error. -/
theorem allOrErrors_eq_ok_iff {outcomes : List (Except ε α)} {values : List α} :
    allOrErrors outcomes = .ok values ↔ outcomes = values.map .ok := by
  rw [allOrErrors_eq]
  constructor
  · intro h
    split at h
    · rename_i hempty
      rw [← Except.ok.inj h]
      exact eq_map_ok_of_errorsOf_eq_nil (List.isEmpty_iff.1 hempty)
    · exact absurd h (by simp)
  · rintro rfl
    simp

/-- There are errors exactly if some outcome is one, and then there are all of them. -/
theorem allOrErrors_eq_error_iff {outcomes : List (Except ε α)} {errors : List ε} :
    allOrErrors outcomes = .error errors ↔ errors ≠ [] ∧ errorsOf outcomes = errors := by
  rw [allOrErrors_eq]
  constructor
  · intro h
    split at h
    · exact absurd h (by simp)
    · rename_i hempty
      have herrors := Except.error.inj h
      refine ⟨?_, herrors⟩
      rw [← herrors]
      simpa using hempty
  · rintro ⟨hne, rfl⟩
    simp [hne]

end Outcomes

/-! ## One definition -/

namespace Document.OperationDefinition

/-- The names of the variables that a definition declares, in order. -/
def variableNames (definition : OperationDefinition) : List String :=
  definition.declared.map VariableDefinition.name

/-- A definition without a name, or with a variable name that is declared twice. -/
def Faulty (definition : OperationDefinition) : Prop :=
  definition.name? = none ∨ ¬definition.variableNames.Nodup

instance (definition : OperationDefinition) : Decidable definition.Faulty :=
  inferInstanceAs (Decidable (definition.name? = none ∨ ¬definition.variableNames.Nodup))

/--
An error reports what is wrong with a definition: that the operation at its position has no name, or
else which variable name is the first to be declared again.
-/
inductive Reports (path? : Option Path) (definition : OperationDefinition) : LoadError → Prop where
  | anonymous (hname : definition.name? = none) :
      Reports path? definition (.anonymous definition.position path?)
  | duplicate {name repeated : String} {first second : Nat} (hname : definition.name? = some name)
      (hrepetition : FirstRepetition definition.variableNames first second)
      (hrepeated : definition.variableNames[second]? = some repeated) :
      Reports path? definition (.duplicate ⟨name, repeated⟩)

end Document.OperationDefinition

/--
A variable is what its definition declares; only whether there is a default value is compared.
-/
structure Variable.Carries (definition : Document.VariableDefinition) (v : Variable) : Prop where
  name_eq : v.name = definition.name
  type_eq : v.type = .ofSyntax definition.type
  default_eq : v.default?.isSome = definition.default?.isSome

/-- An operation is what its definition defines, with its types named between the affixes. -/
structure Operation.Carries (affixes : Affixes) (definition : Document.OperationDefinition)
    (operation : Operation) : Prop where
  kind_eq : operation.kind = definition.kind
  name_eq : definition.name? = some operation.name
  declared : List.Forall₂ Variable.Carries definition.declared operation.declared
  resultType_eq :
    operation.resultType = affixes.wrap (typeName definition.kind operation.name)
  variablesType_eq :
    operation.variablesType = affixes.wrap (variablesTypeName definition.kind operation.name)

open Document (OperationDefinition)

/-- The variables of an operation have the names that were declared. -/
theorem Variable.map_name_ofDefinition (definition : OperationDefinition) :
    (definition.declared.map ofDefinition).map Variable.name = definition.variableNames := by
  rw [List.map_map]
  rfl

/-- Each variable of an operation carries the definition that it was declared by. -/
theorem Variable.carries_ofDefinition (definitions : List Document.VariableDefinition) :
    List.Forall₂ Carries definitions (definitions.map ofDefinition) := by
  induction definitions with
  | nil => exact .nil
  | cons definition definitions ih =>
    refine .cons ⟨rfl, rfl, ?_⟩ ih
    simp [ofDefinition]

namespace Operation

variable (affixes : Affixes) (path? : Option Path) {definition : OperationDefinition}

/-- A definition that is not faulty gives its operation. -/
theorem ofDefinition_of_not_faulty (h : ¬definition.Faulty) :
    ∃ operation, ofDefinition affixes path? definition = .ok operation ∧
      Carries affixes definition operation := by
  simp only [OperationDefinition.Faulty, not_or, not_not] at h
  obtain ⟨hname, hnodup⟩ := h
  obtain ⟨name, hname⟩ := Option.ne_none_iff_exists'.1 hname
  rw [← Variable.map_name_ofDefinition] at hnodup
  have hadded := Draft.addVariables_eq_ok (Draft.affixed affixes definition.kind name) hnodup
  refine ⟨_, by rw [ofDefinition, hname]; simp only; rw [hadded], ?_⟩
  exact
    { kind_eq := rfl
      name_eq := hname
      declared := Variable.carries_ofDefinition _
      resultType_eq := rfl
      variablesType_eq := rfl }

/-- A faulty definition gives the error that reports its fault. -/
theorem ofDefinition_of_faulty (h : definition.Faulty) :
    ∃ error, ofDefinition affixes path? definition = .error error ∧
      definition.Reports path? error := by
  cases hname : definition.name? with
  | none => exact ⟨_, by rw [ofDefinition, hname], .anonymous hname⟩
  | some name =>
    have hrepeats : ¬definition.variableNames.Nodup := by
      rcases h with hnone | hrepeats
      · rw [hname] at hnone
        exact absurd hnone (by simp)
      · exact hrepeats
    obtain ⟨first, second, hrepetition⟩ := exists_firstRepetition hrepeats
    have hlt := hrepetition.second_lt
    rw [OperationDefinition.variableNames, List.length_map] at hlt
    have hrepeated : (definition.declared.map Variable.ofDefinition)[second]? =
        some (Variable.ofDefinition definition.declared[second]) := by
      rw [List.getElem?_map, List.getElem?_eq_getElem hlt]
      rfl
    have hrefused := Draft.addVariables_eq_error (Draft.affixed affixes definition.kind name) rfl
      (by rw [Variable.map_name_ofDefinition]; exact hrepetition) hrepeated
    refine ⟨_, by rw [ofDefinition, hname]; simp only; rw [hrefused], ?_⟩
    refine .duplicate hname hrepetition ?_
    rw [OperationDefinition.variableNames, List.getElem?_map, List.getElem?_eq_getElem hlt]
    rfl

/-- An operation that a definition gives is what the definition defines. -/
theorem carries_of_ofDefinition {affixes : Affixes} {path? : Option Path} {operation : Operation}
    (h : ofDefinition affixes path? definition = .ok operation) :
    Carries affixes definition operation := by
  by_cases hfaulty : definition.Faulty
  · obtain ⟨error, herror, _⟩ := ofDefinition_of_faulty affixes path? hfaulty
    rw [herror] at h
    exact absurd h (by simp)
  · obtain ⟨carried, hcarried, hcarries⟩ := ofDefinition_of_not_faulty affixes path? hfaulty
    rw [hcarried] at h
    rw [← Except.ok.inj h]
    exact hcarries

/-- Definitions of which none is faulty give one operation each, in order. -/
theorem map_ofDefinition_of_not_faulty {definitions : List OperationDefinition}
    (h : ∀ definition ∈ definitions, ¬definition.Faulty) :
    ∃ operations, definitions.map (ofDefinition affixes path?) = operations.map .ok ∧
      List.Forall₂ (Carries affixes) definitions operations := by
  induction definitions with
  | nil => exact ⟨[], rfl, .nil⟩
  | cons definition definitions ih =>
    obtain ⟨operation, hoperation, hcarries⟩ :=
      ofDefinition_of_not_faulty affixes path? (h definition List.mem_cons_self)
    obtain ⟨operations, hoperations, hall⟩ :=
      ih fun later hlater => h later (List.mem_cons_of_mem _ hlater)
    exact ⟨operation :: operations, by simp [hoperation, hoperations], .cons hcarries hall⟩

/-- Each faulty definition gives one error, in order, and the others give none. -/
theorem errorsOf_map_ofDefinition (definitions : List OperationDefinition) :
    List.Forall₂ (OperationDefinition.Reports path?) (definitions.filter (·.Faulty))
      (errorsOf (definitions.map (ofDefinition affixes path?))) := by
  induction definitions with
  | nil => exact .nil
  | cons definition definitions ih =>
    by_cases hfaulty : definition.Faulty
    · obtain ⟨error, herror, hreports⟩ :=
        ofDefinition_of_faulty affixes path? hfaulty
      simpa [hfaulty, herror, errorsOf] using List.Forall₂.cons hreports ih
    · obtain ⟨operation, hoperation, _⟩ :=
        ofDefinition_of_not_faulty affixes path? hfaulty
      simpa [hfaulty, hoperation, errorsOf] using ih

end Operation

/-! ## Documents -/

section Texts

variable {affixes : Affixes} {path? : Option Path} {text : String}

/-- A document gives some operations exactly if its definitions do, one after the other. -/
theorem loadText_eq_ok_iff {operations : List Operation} :
    loadText affixes path? text = .ok operations ↔
      ∃ definitions, Document.parse text = .ok definitions ∧
        (definitions.filterMap Document.Definition.operation?).map
          (Operation.ofDefinition affixes path?) = operations.map .ok := by
  rw [loadText]
  rcases hparse : Document.parse text with (position | _) | definitions
  · simp
  · simp
  · simp only [Except.ok.injEq, exists_eq_left', ← allOrErrors_eq_ok_iff]
    cases allOrErrors ((definitions.filterMap Document.Definition.operation?).map
      (Operation.ofDefinition affixes path?)) <;> simp [Except.mapError]

/-- The operations that are loaded from a document are what its definitions define, in order. -/
theorem exists_carries_of_loadText {operations : List Operation}
    (h : loadText affixes path? text = .ok operations) :
    ∃ definitions, Document.parse text = .ok definitions ∧
      List.Forall₂ (Operation.Carries affixes)
        (definitions.filterMap Document.Definition.operation?) operations := by
  obtain ⟨definitions, hparse, hgiven⟩ := loadText_eq_ok_iff.1 h
  refine ⟨definitions, hparse, ?_⟩
  rw [← List.forall₂_eq_eq_eq, List.forall₂_map_left_iff, List.forall₂_map_right_iff] at hgiven
  exact hgiven.imp fun definition operation => Operation.carries_of_ofDefinition

/-- A document that is parsed gives its operations, or the errors of all of them. -/
theorem loadText_of_parse {definitions : List Document.Definition}
    (h : Document.parse text = .ok definitions) :
    loadText affixes path? text =
      (allOrErrors ((definitions.filterMap Document.Definition.operation?).map
        (Operation.ofDefinition affixes path?))).mapError .errors := by
  rw [loadText, h]

/-- A text that is loaded ends the program exactly if it does so when it is read. -/
theorem loadText_eq_crashed_iff (affixes : Affixes) (path? : Option Path) (text : String) :
    loadText affixes path? text = .error .crashed ↔ Document.parse text = .error .crashed := by
  rw [loadText]
  rcases hparse : Document.parse text with (position | _) | definitions
  · simp
  · simp
  · dsimp only
    cases allOrErrors ((definitions.filterMap Document.Definition.operation?).map
      (Operation.ofDefinition affixes path?)) <;> simp [Except.mapError]

/-- A text that gives errors gives one at least. -/
theorem ne_nil_of_loadText {errors : List LoadError}
    (h : loadText affixes path? text = .error (.errors errors)) : errors ≠ [] := by
  rw [loadText] at h
  rcases hparse : Document.parse text with (position | _) | definitions
  · rw [hparse] at h
    obtain rfl := LoadFailure.errors.inj (Except.error.inj h)
    exact List.cons_ne_nil _ _
  · rw [hparse] at h
    exact absurd h (by simp)
  · rw [hparse] at h
    dsimp only at h
    cases hgiven : allOrErrors ((definitions.filterMap Document.Definition.operation?).map
      (Operation.ofDefinition affixes path?)) with
    | ok operations =>
      rw [hgiven] at h
      exact absurd h (by simp [Except.mapError])
    | error given =>
      rw [hgiven] at h
      obtain rfl := LoadFailure.errors.inj (Except.error.inj h)
      exact (allOrErrors_eq_error_iff.1 hgiven).1

end Texts

/--
A text gives operations or errors unless it comes to a block string that cannot be cut, which ends
the program.  A text that is no document gives one error.  A document falls into segments that begin
at the positions of its definitions; it gives one operation for each definition of one, in order, if
none is faulty, and otherwise one error for each faulty definition, in order.
-/
theorem loadText_all_or_nothing (affixes : Affixes) (path? : Option Path) (text : String) :
    ((∃ operations, loadText affixes path? text = .ok operations) ∨
        (∃ errors, loadText affixes path? text = .error (.errors errors)) ↔
      ¬∃ position chars, Document.CrashesAt text position chars) ∧
    (∀ position, Document.parse text = .error (.rejected position) →
      loadText affixes path? text = .error (.errors [.unparsable position path?])) ∧
    ∀ definitions, Document.parse text = .ok definitions →
      let declared := definitions.filterMap Document.Definition.operation?
      (∃ segments, segments.flatten = (Document.scan text.toList).lexemes ∧
        List.Forall₂ Document.Spells segments definitions) ∧
      ((∀ definition ∈ declared, ¬definition.Faulty) →
        ∃ operations, loadText affixes path? text = .ok operations ∧
          List.Forall₂ (Operation.Carries affixes) declared operations) ∧
      ((∃ definition ∈ declared, definition.Faulty) →
        ∃ errors, loadText affixes path? text = .error (.errors errors) ∧
          List.Forall₂ (OperationDefinition.Reports path?)
            (declared.filter (·.Faulty)) errors) := by
  refine ⟨?_, ?_, ?_⟩
  · have hcrash := loadText_eq_crashed_iff affixes path? text
    rw [← Document.parse_eq_crashed_iff, ← hcrash]
    rcases loadText affixes path? text with (errors | _) | operations <;> simp
  · intro position h
    rw [loadText, h]
  · intro definitions h declared
    refine ⟨Document.segments_of_parse h, ?_, ?_⟩
    · intro hsound
      obtain ⟨operations, hoperations, hcarries⟩ :=
        Operation.map_ofDefinition_of_not_faulty affixes path? hsound
      exact ⟨operations, loadText_eq_ok_iff.2 ⟨definitions, h, hoperations⟩, hcarries⟩
    · rintro ⟨definition, hmem, hfaulty⟩
      have hreports := Operation.errorsOf_map_ofDefinition affixes path? declared
      refine ⟨_, ?_, hreports⟩
      have hne : errorsOf (declared.map (Operation.ofDefinition affixes path?)) ≠ [] := by
        intro hnone
        rw [hnone, List.forall₂_nil_right_iff] at hreports
        have hin : definition ∈ declared.filter (·.Faulty) := by simp [hmem, hfaulty]
        rw [hreports] at hin
        exact absurd hin List.not_mem_nil
      rw [loadText_of_parse h, allOrErrors_eq_error_iff.2 ⟨hne, rfl⟩]
      rfl

/--
A document whose default value is a block string that is indented by a blank of several bytes.
-/
def crashingText : String :=
  "query q($a: T = \"\"\"\n x\n\u3000y\n\"\"\") \x7b f \x7d"

/-- The lexemes of the document, of which the ninth is the block string. -/
def crashingScan : Document.Scan where
  lexemes :=
    [⟨⟨1, 1⟩, .name "query".toList⟩, ⟨⟨1, 7⟩, .name ['q']⟩, ⟨⟨1, 8⟩, .punctuator '('⟩,
      ⟨⟨1, 9⟩, .punctuator '$'⟩, ⟨⟨1, 10⟩, .name ['a']⟩, ⟨⟨1, 11⟩, .punctuator ':'⟩,
      ⟨⟨1, 13⟩, .name ['T']⟩, ⟨⟨1, 15⟩, .punctuator '='⟩,
      ⟨⟨1, 17⟩, .block "\n x\n\u3000y\n".toList⟩, ⟨⟨4, 4⟩, .punctuator ')'⟩,
      ⟨⟨4, 6⟩, .punctuator '\x7b'⟩, ⟨⟨4, 8⟩, .name ['f']⟩, ⟨⟨4, 10⟩, .punctuator '\x7d'⟩]
  ending := .endOfText ⟨4, 11⟩

/-- The document gives neither operations nor errors. -/
theorem loadText_crashes :
    ¬((∃ operations, loadText {} none crashingText = .ok operations) ∨
      ∃ errors, loadText {} none crashingText = .error (.errors errors)) := by
  have hscan : Document.scan crashingText.toList = crashingScan := by cbv
  have hcrash : loadText {} none crashingText = .error .crashed := by
    rw [loadText, Document.parse, hscan]
    decide +kernel
  simp [hcrash]

end QueryHooks
