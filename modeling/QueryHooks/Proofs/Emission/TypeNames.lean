import QueryHooks.Proofs.Emission.Support

/-!
# Names of generated types

Every type that generated code refers to or declares has a name between the affixes.  These names
are made of the characters of identifiers.  That none of them begins with a digit is not seen to: a
prefix may begin with one, and without a prefix a type begins with the first letter or digit of the
name of its operation.

Main results:

- Definition `IsIdentifier`: a name that a type can have.
- Definition `Config.typeNames`: the names of all types of some operations and their module.
- Theorem `isIdentifier_wrap_iff`: when a name between affixes is an identifier.
- Theorem `type_names_are_identifiers_iff`: when the types of a document and its module have
  identifiers as their names.
-/

namespace QueryHooks

open Config (isNamePart)

/-! ## Identifiers -/

/-- A text begins with a digit. -/
def BeginsWithDigit (text : String) : Prop :=
  ∃ c ∈ text.toList.head?, c.isDigit = true

/--
Some letters, digits, underscores and dollar signs, of which there is at least one, but no digit
first.
-/
structure IsIdentifier (name : String) : Prop where
  ne_empty : name ≠ ""
  isNamePart : ∀ c ∈ name.toList, isNamePart c = true
  not_beginsWithDigit : ¬BeginsWithDigit name

/-- Of two texts the second one counts where the first one is empty. -/
theorem beginsWithDigit_append {text later : String} :
    BeginsWithDigit (text ++ later) ↔ BeginsWithDigit text ∨ text = "" ∧ BeginsWithDigit later := by
  rw [BeginsWithDigit, BeginsWithDigit, String.toList_append, ← String.toList_eq_nil_iff]
  cases htext : text.toList with
  | nil => simp [BeginsWithDigit]
  | cons c rest => simp

/-- A name between affixes begins with a digit by its prefix, or by itself if this is empty. -/
theorem Affixes.beginsWithDigit_wrap_iff {affixes : Affixes} {name : String} (hname : name ≠ "") :
    BeginsWithDigit (affixes.wrap name) ↔
      BeginsWithDigit affixes.before ∨ affixes.before = "" ∧ BeginsWithDigit name := by
  -- The suffix never comes first, since there is always a name in front of it.
  have hne : affixes.before ++ name ≠ "" := by simp [hname]
  rw [wrap, beginsWithDigit_append, or_iff_left fun h => hne h.1, beginsWithDigit_append]

/-- A name between affixes is an identifier unless a digit comes first. -/
theorem isIdentifier_wrap_iff {affixes : Affixes} {name : String} (hname : name ≠ "")
    (hparts : ∀ c ∈ (affixes.wrap name).toList, isNamePart c = true) :
    IsIdentifier (affixes.wrap name) ↔
      ¬BeginsWithDigit affixes.before ∧ (affixes.before = "" → ¬BeginsWithDigit name) := by
  rw [← not_and, ← not_or, ← Affixes.beginsWithDigit_wrap_iff hname]
  constructor
  · exact IsIdentifier.not_beginsWithDigit
  · intro hfirst
    exact ⟨by simp [Affixes.wrap, hname], hparts, hfirst⟩

/-! ## Types of operations -/

namespace Operation

/-- The names of the types of an operation. -/
def typeNames (operation : Operation) : List String :=
  [operation.resultType, operation.variablesType]

/--
The first letter or digit of the name of an operation is a digit, whatever stands in front of it.
-/
def LeadsWithDigit (operation : Operation) : Prop :=
  ∃ c ∈ operation.name.toList.find? Char.isAlphanum, c.isDigit = true

theorem typeName_ne_empty (kind : Kind) (name : String) : typeName kind name ≠ "" := by
  cases kind <;> simp [typeName, Kind.name]

/-- The name of a type begins with a digit where its operation leads with one. -/
theorem beginsWithDigit_typeName_iff {operation : Operation} :
    BeginsWithDigit (typeName operation.kind operation.name) ↔ operation.LeadsWithDigit := by
  have hkind : ¬BeginsWithDigit operation.kind.name := by
    cases operation.kind <;> simp [BeginsWithDigit, Kind.name]
  rw [typeName, beginsWithDigit_append, or_iff_left fun h => hkind h.2, BeginsWithDigit,
    Casing.head?_pascal, LeadsWithDigit]
  cases operation.name.toList.find? Char.isAlphanum <;> simp

/-- So does the name of the type of its variables. -/
theorem beginsWithDigit_variablesTypeName_iff {operation : Operation} :
    BeginsWithDigit (variablesTypeName operation.kind operation.name) ↔
      operation.LeadsWithDigit := by
  rw [variablesTypeName, beginsWithDigit_append, or_iff_left fun h => typeName_ne_empty _ _ h.1,
    beginsWithDigit_typeName_iff]

variable {affixes : Affixes} {operation : Operation}

/-- When the result type of a loaded operation is an identifier. -/
theorem IsLoaded.resultType_isIdentifier_iff (h : operation.IsLoaded affixes)
    (haffixes : affixes.ArePlain) :
    IsIdentifier operation.resultType ↔
      ¬BeginsWithDigit affixes.before ∧ (affixes.before = "" → ¬operation.LeadsWithDigit) := by
  have hparts := (h.hasPlainNames haffixes).resultType
  rw [h.resultType_eq] at hparts ⊢
  rw [isIdentifier_wrap_iff (typeName_ne_empty _ _) hparts, beginsWithDigit_typeName_iff]

/-- When the variables type of a loaded operation is an identifier. -/
theorem IsLoaded.variablesType_isIdentifier_iff (h : operation.IsLoaded affixes)
    (haffixes : affixes.ArePlain) :
    IsIdentifier operation.variablesType ↔
      ¬BeginsWithDigit affixes.before ∧ (affixes.before = "" → ¬operation.LeadsWithDigit) := by
  have hparts := (h.hasPlainNames haffixes).variablesType
  have hne : variablesTypeName operation.kind operation.name ≠ "" := by simp [variablesTypeName]
  rw [h.variablesType_eq] at hparts ⊢
  rw [isIdentifier_wrap_iff hne hparts, beginsWithDigit_variablesTypeName_iff]

/-- The types of a loaded operation have identifiers as their names unless a digit comes first. -/
theorem IsLoaded.forall_isIdentifier_iff (h : operation.IsLoaded affixes)
    (haffixes : affixes.ArePlain) :
    (∀ name ∈ operation.typeNames, IsIdentifier name) ↔
      ¬BeginsWithDigit affixes.before ∧ (affixes.before = "" → ¬operation.LeadsWithDigit) := by
  rw [typeNames, List.forall_mem_cons, List.forall_mem_singleton,
    h.resultType_isIdentifier_iff haffixes, h.variablesType_isIdentifier_iff haffixes, and_self_iff]

/-- The types of a loaded operation have characters of names only. -/
theorem IsLoaded.isNamePart_of_mem_typeNames (h : operation.IsLoaded affixes)
    (haffixes : affixes.ArePlain) :
    ∀ name ∈ operation.typeNames, name ≠ "" ∧ ∀ c ∈ name.toList, isNamePart c = true := by
  have hplain := h.hasPlainNames haffixes
  rw [typeNames, List.forall_mem_cons, List.forall_mem_singleton]
  refine ⟨⟨?_, hplain.resultType⟩, ?_, hplain.variablesType⟩
  · simp [h.resultType_eq, Affixes.wrap, typeName_ne_empty]
  · simp [h.variablesType_eq, Affixes.wrap, variablesTypeName]

end Operation

/-! ## Types of modules -/

namespace Config

/-- The names of the types that a module can declare between the affixes. -/
def declaredTypes (config : Config) : List String :=
  [config.affixes.wrap "SdkWithHooks", config.affixes.wrap Hook.keyLoader]

/-- The names of the types of some operations and of their module. -/
def typeNames (config : Config) (operations : List Operation) : List String :=
  operations.flatMap Operation.typeNames ++ config.declaredTypes

/-- What holds for the types of each operation and for those of the module holds for all. -/
theorem forall_mem_typeNames_iff {config : Config} {operations : List Operation}
    {p : String → Prop} :
    (∀ name ∈ config.typeNames operations, p name) ↔
      (∀ operation ∈ operations, ∀ name ∈ operation.typeNames, p name) ∧
        ∀ name ∈ config.declaredTypes, p name := by
  rw [typeNames, List.forall_mem_append, List.forall_mem_flatMap]

theorem isNamePart_of_mem_declaredTypes {config : Config} (haffixes : config.affixes.ArePlain) :
    ∀ name ∈ config.declaredTypes, name ≠ "" ∧ ∀ c ∈ name.toList, isNamePart c = true := by
  rw [declaredTypes, List.forall_mem_cons, List.forall_mem_singleton]
  refine ⟨⟨by simp [Affixes.wrap], haffixes.wrap (by simp [isNamePart])⟩, ?_⟩
  exact ⟨by simp [Affixes.wrap, Hook.keyLoader],
    haffixes.wrap (by simp [Hook.keyLoader, isNamePart])⟩

/-- The types of a module have identifiers as their names unless the prefix begins with a digit. -/
theorem forall_isIdentifier_declaredTypes_iff {config : Config}
    (haffixes : config.affixes.ArePlain) :
    (∀ name ∈ config.declaredTypes, IsIdentifier name) ↔
      ¬BeginsWithDigit config.affixes.before := by
  have hletters : ¬BeginsWithDigit "SdkWithHooks" ∧ ¬BeginsWithDigit Hook.keyLoader := by
    simp [BeginsWithDigit, Hook.keyLoader]
  have hparts := isNamePart_of_mem_declaredTypes haffixes
  rw [declaredTypes, List.forall_mem_cons, List.forall_mem_singleton] at hparts ⊢
  rw [isIdentifier_wrap_iff (by decide) hparts.1.2, isIdentifier_wrap_iff (by decide) hparts.2.2]
  simp [hletters]

end Config

/--
The types of a document and of its module have names that are not empty and have only characters of
identifiers, whatever the options are.  All of these names are identifiers exactly if the prefix
does not begin with a digit and, where there is no prefix, no operation has a digit as the first
letter or digit of its name.
-/
theorem type_names_are_identifiers_iff {options : Options} {config : Config}
    (hconfig : Config.ofOptions options = .ok config) {path? : Option Path} {text : String}
    {operations : List Operation} (hload : loadText config.affixes path? text = .ok operations) :
    (∀ name ∈ config.typeNames operations, name ≠ "" ∧ ∀ c ∈ name.toList, isNamePart c = true) ∧
      ((∀ name ∈ config.typeNames operations, IsIdentifier name) ↔
        ¬BeginsWithDigit options.typesPrefix ∧
          (options.typesPrefix = "" → ∀ operation ∈ operations, ¬operation.LeadsWithDigit)) := by
  have hreflects := Config.reflects_of_ofOptions hconfig
  have haffixes := hreflects.arePlain
  have hbefore : options.typesPrefix = config.affixes.before := by rw [hreflects.affixes_eq]
  have hloaded := isLoaded_of_loadText hload
  rw [Config.forall_mem_typeNames_iff, Config.forall_mem_typeNames_iff,
    Config.forall_isIdentifier_declaredTypes_iff haffixes, hbefore]
  refine ⟨⟨fun operation hoperation =>
    (hloaded operation hoperation).isNamePart_of_mem_typeNames haffixes,
    Config.isNamePart_of_mem_declaredTypes haffixes⟩, ?_⟩
  have hiff (operation : Operation) (hoperation : operation ∈ operations) :=
    (hloaded operation hoperation).forall_isIdentifier_iff haffixes
  constructor
  · rintro ⟨hoperations, hfirst⟩
    refine ⟨hfirst, fun hempty operation hoperation => ?_⟩
    exact ((hiff operation hoperation).1 (hoperations operation hoperation)).2 hempty
  · rintro ⟨hfirst, hlead⟩
    refine ⟨fun operation hoperation => (hiff operation hoperation).2 ⟨hfirst, ?_⟩, hfirst⟩
    exact fun hempty => hlead hempty operation hoperation

/-- Behind the prefix `T`, all types have identifiers as their names. -/
theorem isIdentifier_typeNames_queryA :
    Config.ofOptions pagingOptions = .ok pagingConfig ∧
      loadText pagingConfig.affixes (some ⟨"a.graphql"⟩) "query A { f } # the end" =
        .ok [queryA] ∧
      ∀ name ∈ pagingConfig.typeNames [queryA], IsIdentifier name := by
  have hload : loadText pagingConfig.affixes (some ⟨"a.graphql"⟩) "query A { f } # the end" =
      .ok [queryA] := by
    cases loadText_commentedDocuments with
    | cons hfirst _ => exact hfirst
  have hletter : ¬BeginsWithDigit pagingOptions.typesPrefix := by
    simp [BeginsWithDigit, pagingOptions]
  have hall := type_names_are_identifiers_iff ofOptions_pagingOptions hload
  exact ⟨ofOptions_pagingOptions, hload, hall.2.2 ⟨hletter, by simp [pagingOptions]⟩⟩

/--
A digit comes first without a prefix if it is the first letter or digit of the name of an operation,
and it does so behind a prefix that begins with one.
-/
theorem types_named_with_digit_first :
    (Config.ofOptions {} = .ok {} ∧ ∃ operation,
      loadText ({} : Config).affixes none "query _2fa { f }" = .ok [operation] ∧
        operation.resultType = "2faQuery" ∧ ¬IsIdentifier operation.resultType) ∧
    ∃ config, Config.ofOptions { typesPrefix := "2" } = .ok config ∧
      config.affixes.wrap "SdkWithHooks" = "2SdkWithHooks" ∧
        ¬IsIdentifier (config.affixes.wrap "SdkWithHooks") := by
  have hdigit (rest : String) : ¬IsIdentifier ("2" ++ rest) := by
    intro h
    exact h.not_beginsWithDigit (beginsWithDigit_append.2 (.inl (by simp [BeginsWithDigit])))
  have hscan : Document.scan "query _2fa { f }".toList =
      ⟨[⟨⟨1, 1⟩, .name "query".toList⟩, ⟨⟨1, 7⟩, .name "_2fa".toList⟩, ⟨⟨1, 12⟩, .punctuator '{'⟩,
        ⟨⟨1, 14⟩, .name ['f']⟩, ⟨⟨1, 16⟩, .punctuator '}'⟩], .endOfText ⟨1, 17⟩⟩ := by
    cbv
  constructor
  · refine ⟨rfl, ⟨.query, "_2fa", "2faQuery", "2faQueryVariables", [], List.nodup_nil⟩, ?_, rfl,
      hdigit "faQuery"⟩
    rw [loadText, Document.parse, hscan]
    decide
  · exact ⟨{ affixes := ⟨"2", ""⟩ }, rfl, rfl, hdigit "SdkWithHooks"⟩

end QueryHooks
