import QueryHooks.Proofs.Emission.Collision

/-!
# Accessors beside hooks

The bundle begins with the accessors of all recorded operations, and the hooks follow in the same
object.  A later member of an object replaces an earlier one with the same name.  Hooks do not
replace each other, since their names are distinct, but a hook replaces the accessor of an operation
that is named like it.  Which accessors are lost can be told from the words of names.

Main results:

- Definition `Bundle.member?`: what a name stands for in a bundle.
- Definition `hookWords?`: the words of a name that a hook can have.
- Definition `Config.replaces`: whether a hook takes the place of the accessor with a name.
- Theorem `hookName_eq_iff_hookWords?`: a name is the name of a hook exactly if it has the words of
  one.
- Theorem `Emitter.accessors_are_kept_iff`: every hook is in the bundle, and an accessor is in it
  exactly if no hook takes its place.
-/

namespace QueryHooks

open Casing (lowerWords pascalOfWords readPascal)

/-! ## Members of a bundle -/

/-- What a name in a bundle can stand for. -/
inductive Bundle.Member where
  /-- The function that sends the operations with a name. -/
  | accessor (operationName : String)
  | hook (hook : Hook)
  deriving DecidableEq

namespace Bundle

/-- The members of a bundle in the order in which it lists them. -/
def members (operations : List Operation) (hooks : List Hook) : List (String × Member) :=
  operations.map (fun operation => (operation.name, .accessor operation.name)) ++
    hooks.map fun hook => (hook.name, .hook hook)

/-- What a name stands for: the last member that has it. -/
def member? (members : List (String × Member)) (name : String) : Option Member :=
  members.reverse.lookup name

/-- If all members with a name are the same, the name stands for that one. -/
theorem member?_eq_some {members : List (String × Member)} {name : String} {member : Member}
    (hmem : (name, member) ∈ members)
    (honly : ∀ entry ∈ members, entry.1 = name → entry.2 = member) :
    member? members name = some member := by
  cases h : member? members name with
  | none =>
    have hother := List.lookup_eq_none_iff.1 h (name, member) (List.mem_reverse.2 hmem)
    exact absurd hother (by simp)
  | some found =>
    -- Whichever of the members with the name is found, it is the same.
    obtain ⟨before, after, hmembers, _⟩ := List.lookup_eq_some_iff.1 h
    have hfound : (name, found) ∈ members := by
      rw [← List.mem_reverse, hmembers]
      simp
    exact congrArg some (honly _ hfound rfl)

/-- Of two members with a name the later one counts. -/
theorem member?_append (members later : List (String × Member)) (name : String) :
    member? (members ++ later) name = (member? later name).or (member? members name) := by
  rw [member?, List.reverse_append, List.lookup_append]
  rfl

variable {operations : List Operation} {hooks : List Hook}

/-- The name of a hook stands for that hook, also if an operation has the same name. -/
theorem member?_hook {hook : Hook} (hnodup : (hooks.map Hook.name).Nodup) (hmem : hook ∈ hooks) :
    member? (members operations hooks) hook.name = some (.hook hook) := by
  have hhook : member? (hooks.map fun hook => (hook.name, .hook hook)) hook.name =
      some (.hook hook) := by
    refine member?_eq_some (List.mem_map.2 ⟨hook, hmem, rfl⟩) ?_
    intro entry hentry hname
    obtain ⟨other, hother, rfl⟩ := List.mem_map.1 hentry
    rw [List.inj_on_of_nodup_map hnodup hother hmem hname]
  rw [members, member?_append, hhook, Option.some_or]

/-- The name of an operation stands for its accessor unless a hook has the same name. -/
theorem member?_accessor_iff {operation : Operation} (hnodup : (hooks.map Hook.name).Nodup)
    (hmem : operation ∈ operations) :
    member? (members operations hooks) operation.name = some (.accessor operation.name) ↔
      operation.name ∉ hooks.map Hook.name := by
  constructor
  · intro h htaken
    obtain ⟨hook, hhook, hname⟩ := List.mem_map.1 htaken
    rw [← hname, member?_hook hnodup hhook] at h
    exact absurd h (by simp)
  · intro hfree
    have hhooks : member? (hooks.map fun hook => (hook.name, .hook hook)) operation.name =
        none := by
      rw [member?, List.lookup_eq_none_iff]
      intro entry hentry
      obtain ⟨hook, hhook, rfl⟩ := List.mem_map.1 (List.mem_reverse.1 hentry)
      have hne : operation.name ≠ hook.name := fun h => hfree (h ▸ List.mem_map_of_mem hhook)
      simpa using hne
    rw [members, member?_append, hhooks, Option.none_or]
    refine member?_eq_some (List.mem_map.2 ⟨operation, hmem, rfl⟩) ?_
    intro entry hentry hname
    obtain ⟨other, _, rfl⟩ := List.mem_map.1 hentry
    rw [← hname]

end Bundle

/-! ## Names that hooks can have -/

/-- The words of a name that a hook can have: behind `use`, the name is in PascalCase. -/
def hookWords? (name : String) : Option (List (List Char)) :=
  match name.toList with
  | 'u' :: 's' :: 'e' :: rest =>
    if pascalOfWords (readPascal rest) = rest then some (readPascal rest) else none
  | _ => none

/-- A name is that of a hook exactly if its words are those of the hook. -/
theorem hookName_eq_iff_hookWords? {operationName name : String} {variant : Hook.Variant} :
    hookName operationName variant = name ↔
      hookWords? name = some (hookWords operationName variant) := by
  constructor
  · rintro rfl
    have hread : readPascal (pascalOfWords (hookWords operationName variant)) =
        hookWords operationName variant := by
      rw [Casing.readPascal_pascalOfWords isWord_of_mem_hookWords, map_lower_hookWords]
    have hchars : (hookName operationName variant).toList =
        'u' :: 's' :: 'e' :: pascalOfWords (hookWords operationName variant) :=
      toList_hookName operationName variant
    rw [hookWords?, hchars]
    simp [hread]
  · intro h
    unfold hookWords? at h
    split at h
    · rename_i rest hname
      rw [Option.ite_none_right_eq_some] at h
      obtain ⟨hpascal, hwords⟩ := h
      rw [← String.toList_inj, toList_hookName, ← Option.some.inj hwords, hpascal, hname]
      rfl
    · exact absurd h (by simp)

/-- Whether the accessor with a name makes room for a hook of some operations. -/
def Config.replaces (config : Config) (operations : List Operation) (name : String) : Bool :=
  (hookWords? name).any fun found =>
    (config.eligible operations).any fun query =>
      found == lowerWords query.name ||
        (config.wantsInfinite query.name && found == lowerWords query.name ++ ["infinite".toList])

/-- The names of the hooks depend on the eligible operations only. -/
theorem Config.map_name_hooksFor (config : Config) (operations : List Operation) :
    (config.hooksFor operations).map Hook.name =
      (config.eligible operations).flatMap config.namesFor := by
  rw [hooksFor, List.map_flatMap]
  rfl

/-- An accessor makes room for a hook exactly if a hook has its name. -/
theorem Config.replaces_iff {config : Config} {operations : List Operation} {name : String} :
    config.replaces operations name = true ↔ name ∈ (config.hooksFor operations).map Hook.name := by
  have hstandard (query : Operation) :
      hookWords? name = some (lowerWords query.name) ↔ name = hookName query.name .standard := by
    rw [eq_comm (a := name), hookName_eq_iff_hookWords?]
    simp [hookWords, Hook.Variant.endingWords]
  have hinfinite (query : Operation) :
      hookWords? name = some (lowerWords query.name ++ ["infinite".toList]) ↔
        name = hookName query.name .infinite := by
    rw [eq_comm (a := name), hookName_eq_iff_hookWords?]
    rfl
  rw [map_name_hooksFor, List.mem_flatMap]
  constructor
  · intro h
    obtain ⟨found, hfound, hany⟩ := (Option.any_eq_true ..).1 h
    obtain ⟨query, hquery, hwords⟩ := List.any_eq_true.1 hany
    rw [Bool.or_eq_true, Bool.and_eq_true, beq_iff_eq, beq_iff_eq] at hwords
    refine ⟨query, hquery, mem_namesFor_iff.2 ?_⟩
    rcases hwords with rfl | ⟨hpaged, rfl⟩
    · exact .inl ((hstandard query).1 hfound)
    · exact .inr ⟨hpaged, (hinfinite query).1 hfound⟩
  · rintro ⟨query, hquery, hname⟩
    rw [mem_namesFor_iff, ← hstandard, ← hinfinite] at hname
    rcases hname with hwords | ⟨hpaged, hwords⟩
    · rw [replaces, hwords, Option.any_some, List.any_eq_true]
      exact ⟨query, hquery, by simp⟩
    · rw [replaces, hwords, Option.any_some, List.any_eq_true]
      exact ⟨query, hquery, by simp [hpaged]⟩

/-! ## Emitted bundles -/

/--
Where a module is emitted, every hook is in its bundle.  The accessor of a recorded operation is in
the bundle exactly if no eligible query has the words that the name of the operation has as the name
of a hook, where the words of a query with an infinite hook count also with the word `infinite`
behind them.  So no hook is named like a recorded operation exactly if this is so for all of them.
-/
theorem Emitter.accessors_are_kept_iff (emitter : Emitter) {module : Module}
    (h : emitter.emit = .ok module) :
    let operations := emitter.collector.operations
    ((∀ name ∈ module.hookNames, ∀ operation ∈ operations, name ≠ operation.name) ↔
      ∀ operation ∈ operations, emitter.config.replaces operations operation.name = false) ∧
    ∃ hooks, emitter.hooks = .ok hooks ∧
      (∀ hook ∈ hooks,
        Bundle.member? (Bundle.members operations hooks) hook.name = some (.hook hook)) ∧
      ∀ operation ∈ operations,
        (Bundle.member? (Bundle.members operations hooks) operation.name =
            some (.accessor operation.name) ↔
          emitter.config.replaces operations operation.name = false) := by
  intro operations
  obtain ⟨hooks, hhooks, hnames⟩ := exists_hooks_of_emit h
  obtain ⟨hgenerated, hnodup⟩ := hooks_eq_ok_iff.1 hhooks
  rw [← hgenerated] at hnodup
  have hreplaces (operation : Operation) :
      emitter.config.replaces operations operation.name = false ↔
        operation.name ∉ hooks.map Hook.name := by
    rw [← Bool.not_eq_true, Config.replaces_iff, hgenerated]
    rfl
  refine ⟨?_, hooks, hhooks, fun hook hhook => Bundle.member?_hook hnodup hhook, ?_⟩
  · rw [hnames]
    constructor
    · intro hdistinct operation hoperation
      rw [hreplaces]
      exact fun hmem => hdistinct _ hmem operation hoperation rfl
    · intro hkept name hname operation hoperation
      rintro rfl
      exact (hreplaces operation).1 (hkept operation hoperation) hname
  · intro operation hoperation
    rw [hreplaces]
    exact Bundle.member?_accessor_iff hnodup hoperation

/-- An operation without variables whose types have their default names. -/
def plainOperation (kind : Operation.Kind) (name : String) : Operation :=
  ({ kind, name, declared := [], distinct := List.nodup_nil } : Operation.Draft).build

/-- A query. -/
def queryFoo : Operation :=
  plainOperation .query "Foo"

/-- A mutation whose name is that of the hook of the query. -/
def mutationUseFoo : Operation :=
  plainOperation .mutation "useFoo"

/-- The hook of the query has the name of the mutation, and the bundle is emitted all the same. -/
theorem emitted_hook_named_like_mutation :
    ∃ module, (Emitter.mk {} ⟨[queryFoo, mutationUseFoo]⟩).emit = .ok module ∧
      ¬∀ name ∈ module.hookNames,
        ∀ operation ∈ [queryFoo, mutationUseFoo], name ≠ operation.name := by
  have hhooks : (Emitter.mk {} ⟨[queryFoo, mutationUseFoo]⟩).hooks =
      .ok (hooksOf queryFoo {}) := by
    cbv
  obtain ⟨module, hmodule⟩ := Emitter.exists_emit_of_hooks hhooks
  refine ⟨module, hmodule, ?_⟩
  intro hdistinct
  rw [Emitter.eq_of_emit hhooks hmodule] at hdistinct
  exact hdistinct "useFoo" (by decide) mutationUseFoo (by simp) rfl

/-- A query of two words. -/
def queryUser_2 : Operation :=
  plainOperation .query "user_2"

/-- A subscription whose name runs the words together.  The hook of the query is `useUser_2`. -/
def subscriptionUseUser2 : Operation :=
  plainOperation .subscription "useUser2"

/--
Beside the two queries the accessor of the subscription is kept and that of the mutation is lost.
-/
theorem accessors_beside_foo_and_user_2 :
    let recorded := [queryFoo, mutationUseFoo, queryUser_2, subscriptionUseUser2]
    ∃ module hooks, (Emitter.mk {} ⟨recorded⟩).emit = .ok module ∧
      (Emitter.mk {} ⟨recorded⟩).hooks = .ok hooks ∧
      Bundle.member? (Bundle.members recorded hooks) "useFoo" ≠ some (.accessor "useFoo") ∧
      Bundle.member? (Bundle.members recorded hooks) "useUser2" = some (.accessor "useUser2") := by
  intro recorded
  have hhooks : (Emitter.mk {} ⟨recorded⟩).hooks =
      .ok (hooksOf queryFoo {} ++ hooksOf queryUser_2 {}) := by
    cbv
  obtain ⟨module, hmodule⟩ := Emitter.exists_emit_of_hooks hhooks
  obtain ⟨_, hooks, hgenerated, _, haccessors⟩ := Emitter.accessors_are_kept_iff _ hmodule
  have hlost := haccessors mutationUseFoo (by simp [recorded])
  have hkept := haccessors subscriptionUseUser2 (by simp [recorded])
  have hreplaced : ({} : Config).replaces recorded mutationUseFoo.name = true := by cbv
  have hfree : ({} : Config).replaces recorded subscriptionUseUser2.name = false := by cbv
  refine ⟨module, hooks, hmodule, hgenerated, ?_, hkept.2 hfree⟩
  intro haccessor
  exact absurd (hlost.1 haccessor) (by simp [hreplaced])

end QueryHooks
