import Mathlib.Data.List.Infix
import QueryHooks.Proofs.Emission.Collision
import QueryHooks.Proofs.Emission.TypeNames

/-!
# Distinct names of generated types

The name of a type is put together from the affixes, the PascalCase name of an operation, and an
ending that tells what the type is for.  None of the endings is the end of another one.  So the
parts of a name cannot be shifted against each other, even if the name of an operation itself ends
in `Query` or in `Variables`, and both the PascalCase name and the ending can be told from the name
of the type.

Main results:

- Definition `TypeRole`: what a type is for.
- Theorem `append_ending_inj`: the ending can be told from a name, whatever stands in front of it.
- Theorem `Operation.IsGiven.mem_typeNames_iff`: the names of the types of an operation.
- Theorem `type_names_never_clash`: which types of loaded operations have the same name.
-/

namespace QueryHooks

/-! ## Endings -/

/-- What a generated type is for. -/
inductive TypeRole where
  /-- The result of an operation of some kind. -/
  | resultOf (kind : Operation.Kind)
  /-- The variables of an operation of some kind. -/
  | variablesOf (kind : Operation.Kind)
  /-- The bundle of all hooks. -/
  | bundle
  /-- A function that chooses the key of a page. -/
  | keyLoader
  deriving DecidableEq

namespace TypeRole

/-- What the name of a type ends in, in front of the suffix. -/
def ending : TypeRole → String
  | resultOf kind => kind.name
  | variablesOf kind => kind.name ++ "Variables"
  | bundle => "SdkWithHooks"
  | keyLoader => Hook.keyLoader

/-- All there is that a type can be for. -/
def all : List TypeRole :=
  [resultOf .query, resultOf .mutation, resultOf .subscription, variablesOf .query,
    variablesOf .mutation, variablesOf .subscription, bundle, keyLoader]

theorem mem_all (role : TypeRole) : role ∈ all := by
  rcases role with (_ | _ | _) | (_ | _ | _) | _ | _ <;> decide

/-- No ending is the end of another one. -/
theorem eq_of_ending_suffix {role other : TypeRole}
    (h : role.ending.toList <:+ other.ending.toList) : role = other := by
  have hall : ∀ first ∈ all, ∀ second ∈ all,
      first.ending.toList <:+ second.ending.toList → first = second := by decide
  exact hall role role.mem_all other other.mem_all h

/-- The ending can be told from a name, whatever stands in front of it. -/
theorem append_ending_inj {text another : String} {role other : TypeRole} :
    text ++ role.ending = another ++ other.ending ↔ role = other ∧ text = another := by
  constructor
  · intro h
    have hlists : text.toList ++ role.ending.toList = another.toList ++ other.ending.toList := by
      rw [← String.toList_append, ← String.toList_append, h]
    have hrole : role = other := by
      have hfirst : role.ending.toList <:+ another.toList ++ other.ending.toList :=
        hlists ▸ List.suffix_append _ _
      rcases List.suffix_or_suffix_of_suffix hfirst (List.suffix_append _ _) with hends | hends
      · exact eq_of_ending_suffix hends
      · exact (eq_of_ending_suffix hends).symm
    subst hrole
    exact ⟨rfl, String.toList_inj.1 (List.append_cancel_right hlists)⟩
  · rintro ⟨rfl, rfl⟩
    rfl

end TypeRole

open TypeRole (append_ending_inj)

/-- The name, between the affixes, of the type that has a role beside a text. -/
def Affixes.typeName (affixes : Affixes) (text : String) (role : TypeRole) : String :=
  affixes.wrap (text ++ role.ending)

/--
Types have the same name exactly if they have the same role and the same text stands in front of it.
-/
theorem Affixes.typeName_inj {affixes : Affixes} {text another : String} {role other : TypeRole} :
    affixes.typeName text role = affixes.typeName another other ↔ role = other ∧
      text = another := by
  rw [typeName, typeName, Affixes.wrap_inj, append_ending_inj]

/-! ## Types of operations -/

namespace Operation

/-- Some definition of an operation, under whatever name, is loaded as this operation. -/
def IsGiven (affixes : Affixes) (operation : Operation) : Prop :=
  ∃ path? definition, ofDefinition affixes path? definition = .ok operation

variable {affixes : Affixes} {operation other : Operation}

/-- There are operations of each kind and of each name. -/
theorem exists_isGiven (affixes : Affixes) (kind : Kind) (name : String) :
    ∃ operation : Operation, operation.IsGiven affixes ∧ operation.kind = kind ∧
      operation.name = name :=
  ⟨(Draft.affixed affixes kind name).build, ⟨none, ⟨{}, kind, some name, []⟩, rfl⟩, rfl, rfl⟩

/-- The result type of an operation is the one of its pascal name and its kind. -/
theorem IsGiven.resultType_eq (h : operation.IsGiven affixes) :
    operation.resultType =
      affixes.typeName (Casing.pascal operation.name) (.resultOf operation.kind) := by
  obtain ⟨path?, definition, hgives⟩ := h
  have hcarries := carries_of_ofDefinition hgives
  rw [hcarries.resultType_eq, hcarries.kind_eq]
  rfl

/-- The variables type of an operation is the one of its pascal name and its kind. -/
theorem IsGiven.variablesType_eq (h : operation.IsGiven affixes) :
    operation.variablesType =
      affixes.typeName (Casing.pascal operation.name) (.variablesOf operation.kind) := by
  obtain ⟨path?, definition, hgives⟩ := h
  have hcarries := carries_of_ofDefinition hgives
  rw [hcarries.variablesType_eq, hcarries.kind_eq, Affixes.typeName, TypeRole.ending,
    ← String.append_assoc]
  rfl

/-- Both types of an operation have its PascalCase name in front of their endings. -/
theorem IsGiven.exists_role_of_mem_typeNames (h : operation.IsGiven affixes) {name : String}
    (hname : name ∈ operation.typeNames) :
    ∃ role, name = affixes.typeName (Casing.pascal operation.name) role ∧
      role ≠ .bundle ∧ role ≠ .keyLoader := by
  rw [typeNames, List.mem_cons, List.mem_singleton] at hname
  rcases hname with rfl | rfl
  · exact ⟨_, h.resultType_eq, by simp, by simp⟩
  · exact ⟨_, h.variablesType_eq, by simp, by simp⟩

/-- Result types are equal where both the kinds and the pascal names are. -/
theorem IsGiven.resultType_eq_iff (h : operation.IsGiven affixes) (hother : other.IsGiven affixes) :
    operation.resultType = other.resultType ↔
      operation.kind = other.kind ∧ Casing.pascal operation.name = Casing.pascal other.name := by
  rw [h.resultType_eq, hother.resultType_eq, Affixes.typeName_inj, TypeRole.resultOf.injEq]

/-- Variables types are equal where both the kinds and the pascal names are. -/
theorem IsGiven.variablesType_eq_iff (h : operation.IsGiven affixes)
    (hother : other.IsGiven affixes) :
    operation.variablesType = other.variablesType ↔
      operation.kind = other.kind ∧ Casing.pascal operation.name = Casing.pascal other.name := by
  rw [h.variablesType_eq, hother.variablesType_eq, Affixes.typeName_inj, TypeRole.variablesOf.injEq]

/-- No result type is a variables type. -/
theorem IsGiven.resultType_ne_variablesType (h : operation.IsGiven affixes)
    (hother : other.IsGiven affixes) : operation.resultType ≠ other.variablesType := by
  rw [h.resultType_eq, hother.variablesType_eq, ne_eq, Affixes.typeName_inj]
  simp

/-- The types of an operation are named otherwise than those that a module declares. -/
theorem IsGiven.ne_declared (h : operation.IsGiven affixes) :
    ∀ name ∈ operation.typeNames,
      name ≠ affixes.wrap "SdkWithHooks" ∧ name ≠ affixes.wrap Hook.keyLoader := by
  intro name hname
  obtain ⟨role, rfl, hbundle, hloader⟩ := h.exists_role_of_mem_typeNames hname
  have hdeclared (other : TypeRole) : affixes.wrap other.ending = affixes.typeName "" other := by
    rw [Affixes.typeName, String.empty_append]
  have hne (other : TypeRole) (hother : role ≠ other) :
      affixes.typeName (Casing.pascal operation.name) role ≠ affixes.wrap other.ending := by
    rw [hdeclared other, ne_eq, Affixes.typeName_inj, not_and]
    exact fun hrole => absurd hrole hother
  exact ⟨hne .bundle hbundle, hne .keyLoader hloader⟩

/-- The two types of an operation have different names. -/
theorem IsGiven.nodup_typeNames (h : operation.IsGiven affixes) : operation.typeNames.Nodup := by
  rw [typeNames, List.nodup_cons, List.mem_singleton]
  exact ⟨h.resultType_ne_variablesType h, List.nodup_singleton _⟩

/-- Operations with different PascalCase names have no type name in common. -/
theorem IsGiven.disjoint_typeNames (h : operation.IsGiven affixes) (hother : other.IsGiven affixes)
    (hname : Casing.pascal operation.name ≠ Casing.pascal other.name) :
    operation.typeNames.Disjoint other.typeNames := by
  intro name hfirst hsecond
  obtain ⟨role, rfl, _⟩ := h.exists_role_of_mem_typeNames hfirst
  obtain ⟨another, hsame, _⟩ := hother.exists_role_of_mem_typeNames hsecond
  exact hname (Affixes.typeName_inj.1 hsame).2

end Operation

/-! ## Types of modules -/

/-- Operations whose hooks do not clash have different PascalCase names. -/
theorem Config.pascal_ne_of_not_clash {config : Config} {operation other : Operation}
    (h : ¬config.Clash operation other) :
    Casing.pascal operation.name ≠ Casing.pascal other.name := by
  intro hpascal
  have hhook : hookName operation.name .standard = hookName other.name .standard := by
    rw [hookName, hookName, hpascal]
  have hwords := hookName_eq_iff.1 hhook
  rw [hookWords, hookWords, List.append_cancel_right_eq] at hwords
  exact h (.inl hwords)

/--
The types of an emitted module and of the operations that get hooks in it have distinct names.
-/
theorem Emitter.nodup_typeNames_of_emit {emitter : Emitter} {module : Module}
    (hgiven : ∀ operation ∈ emitter.collector.operations, operation.IsGiven emitter.config.affixes)
    (hemit : emitter.emit = .ok module) :
    (emitter.config.typeNames
      (emitter.config.eligible emitter.collector.operations)).Nodup := by
  obtain ⟨hooks, hhooks, _⟩ := exists_hooks_of_emit hemit
  have hpairs := (Config.nodup_names_hooksFor_iff _ _).1 (hooks_eq_ok_iff.1 hhooks).2
  have heligible : ∀ operation ∈ emitter.config.eligible emitter.collector.operations,
      operation.IsGiven emitter.config.affixes :=
    fun operation hmem => hgiven operation (List.mem_filter.1 hmem).1
  rw [Config.typeNames, List.nodup_append, List.nodup_flatMap]
  refine ⟨⟨fun operation hmem => (heligible operation hmem).nodup_typeNames, ?_⟩, ?_, ?_⟩
  · refine hpairs.imp_of_mem ?_
    intro operation other hoperation hother hclash
    exact (heligible operation hoperation).disjoint_typeNames (heligible other hother)
      (Config.pascal_ne_of_not_clash hclash)
  · have hne : "SdkWithHooks" ≠ Hook.keyLoader := by decide
    simpa [Config.declaredTypes, Affixes.wrap_inj] using hne
  · intro name hname other hother
    obtain ⟨operation, hmem, htype⟩ := List.mem_flatMap.1 hname
    obtain ⟨hbundle, hloader⟩ := (heligible operation hmem).ne_declared name htype
    rw [Config.declaredTypes, List.mem_cons, List.mem_singleton] at hother
    rcases hother with rfl | rfl
    · exact hbundle
    · exact hloader

/--
There are operations of each kind and each name.  If two of them are loaded with the same affixes,
then their result types have the same name exactly if their kinds and their PascalCase names are the
same, and so have their variables types; a result type never has the name of a variables type, and
neither has the name of a type that a module declares.  So whenever a module is emitted for loaded
operations, the types of those that get hooks have distinct names, which are also different from
those of the module.
-/
theorem type_names_never_clash (affixes : Affixes) :
    (∀ kind name, ∃ operation : Operation, operation.IsGiven affixes ∧ operation.kind = kind ∧
      operation.name = name) ∧
    (∀ operation other : Operation, operation.IsGiven affixes → other.IsGiven affixes →
      (operation.resultType = other.resultType ↔
        operation.kind = other.kind ∧ Casing.pascal operation.name = Casing.pascal other.name) ∧
      (operation.variablesType = other.variablesType ↔
        operation.kind = other.kind ∧ Casing.pascal operation.name = Casing.pascal other.name) ∧
      operation.resultType ≠ other.variablesType ∧
      ∀ name ∈ operation.typeNames,
        name ≠ affixes.wrap "SdkWithHooks" ∧ name ≠ affixes.wrap Hook.keyLoader) ∧
    ∀ (emitter : Emitter) (module : Module), emitter.config.affixes = affixes →
      (∀ operation ∈ emitter.collector.operations, operation.IsGiven affixes) →
      emitter.emit = .ok module →
      (emitter.config.typeNames
        (emitter.config.eligible emitter.collector.operations)).Nodup := by
  refine ⟨Operation.exists_isGiven affixes, ?_, ?_⟩
  · intro operation other h hother
    exact ⟨h.resultType_eq_iff hother, h.variablesType_eq_iff hother,
      h.resultType_ne_variablesType hother, h.ne_declared⟩
  · rintro emitter module rfl hgiven hemit
    exact Emitter.nodup_typeNames_of_emit hgiven hemit

/--
Two queries, one named like the result of the other, and a mutation with the name of the first.
-/
def neighbours : Emitter where
  config := { affixes := ⟨"I", "Doc"⟩ }
  collector := ⟨
    [(Operation.Draft.affixed ⟨"I", "Doc"⟩ .query "user").build,
      (Operation.Draft.affixed ⟨"I", "Doc"⟩ .query "userQuery").build,
      (Operation.Draft.affixed ⟨"I", "Doc"⟩ .mutation "user").build]⟩

/-- The types of the queries and those that their module declares have six different names. -/
theorem typeNames_of_neighbours :
    ∃ module, neighbours.emit = .ok module ∧
      neighbours.config.typeNames (neighbours.config.eligible neighbours.collector.operations) =
        ["IUserQueryDoc", "IUserQueryVariablesDoc", "IUserQueryQueryDoc",
          "IUserQueryQueryVariablesDoc", "ISdkWithHooksDoc", "ISWRInfiniteKeyLoaderDoc"] ∧
      (neighbours.config.typeNames
        (neighbours.config.eligible neighbours.collector.operations)).Nodup := by
  have hhooks : neighbours.hooks = .ok neighbours.recordedHooks :=
    Emitter.hooks_eq_ok_iff.2 ⟨rfl, by decide⟩
  obtain ⟨module, hemit⟩ := Emitter.exists_emit_of_hooks hhooks
  have hgiven : ∀ operation ∈ neighbours.collector.operations, operation.IsGiven ⟨"I", "Doc"⟩ := by
    intro operation hmem
    simp only [neighbours, List.mem_cons, List.not_mem_nil, or_false] at hmem
    rcases hmem with rfl | rfl | rfl
    · exact ⟨none, ⟨{}, .query, some "user", []⟩, rfl⟩
    · exact ⟨none, ⟨{}, .query, some "userQuery", []⟩, rfl⟩
    · exact ⟨none, ⟨{}, .mutation, some "user", []⟩, rfl⟩
  obtain ⟨_, _, hnodup⟩ := type_names_never_clash ⟨"I", "Doc"⟩
  exact ⟨module, hemit, by decide, hnodup neighbours module rfl hgiven hemit⟩

end QueryHooks
