import Mathlib.Data.List.Flatten
import QueryHooks.Proofs.Emission.Collision
import QueryHooks.Proofs.Emission.Influence

/-!
# More patterns

More patterns that exclude queries take hooks away, and more patterns for infinite hooks add some.
All other hooks stay as they are and where they are, so with fewer hooks there is no new collision.

Main results:

- Theorem `PatternSet.isMatch_mono`: with more patterns more names match.
- Theorem `Config.hooksFor_excluding_sublist`: what hooks are left when more is excluded.
- Theorem `Config.hooksFor_sublist_paging` and theorem `Config.filter_isStandard_hooksFor`: what
  hooks there are when more queries have infinite ones.
- Theorem `Emitter.emission_is_monotone_in_patterns`: what becomes of an emission with more
  patterns.
-/

namespace QueryHooks

/-- A name that matches a set matches every set that has the patterns of that set too. -/
theorem PatternSet.isMatch_mono {set more : PatternSet} (h : set.patterns ⊆ more.patterns)
    {name : String} (hmatch : set.isMatch name = true) : more.isMatch name = true := by
  rw [isMatch, List.any_eq_true] at hmatch ⊢
  obtain ⟨glob, hglob, hname⟩ := hmatch
  obtain ⟨other, hother, hsource⟩ := List.mem_map.1 (h (List.mem_map_of_mem hglob))
  -- The two patterns have the same text, which is read in one way only.
  have hsame : other = glob := by
    have hread := more.parsed other hother
    rw [hsource, set.parsed glob hglob] at hread
    exact (Except.ok.inj hread).symm
  exact ⟨other, hother, hsame ▸ hname⟩

/-! ## More excluded queries -/

namespace Config

variable (config : Config) {more : PatternSet}

/-- The configuration with other patterns that exclude queries. -/
def excluding (more : PatternSet) : Config :=
  { config with excludeQueries := more }

/-- The configuration with other patterns for infinite hooks. -/
def paging (more : PatternSet) : Config :=
  { config with infiniteQueries := more }

/-- Where more is excluded, the queries that get hooks are some of those that got hooks before. -/
theorem eligible_excluding_sublist (h : config.excludeQueries.patterns ⊆ more.patterns)
    (operations : List Operation) :
    ((config.excluding more).eligible operations).Sublist (config.eligible operations) := by
  rw [eligible_eq_selected, eligible_eq_selected]
  refine List.monotone_filter_right operations ?_
  intro operation hselects
  simp only [selects, excludes, excluding, Bool.and_eq_true, Bool.not_eq_true'] at hselects ⊢
  refine ⟨hselects.1, ?_⟩
  cases hmatch : config.excludeQueries.isMatch operation.name with
  | false => rfl
  | true => exact absurd (PatternSet.isMatch_mono h hmatch) (by simp [hselects.2])

/-- Where more is excluded, the hooks that are left stand as before. -/
theorem hooksFor_excluding_sublist (h : config.excludeQueries.patterns ⊆ more.patterns)
    (operations : List Operation) :
    ((config.excluding more).hooksFor operations).Sublist (config.hooksFor operations) :=
  (config.eligible_excluding_sublist h operations).flatMap _

/-! ## More infinite hooks -/

/-- The standard hook of an operation is the same whether it has an infinite one or not. -/
theorem standard_paging (operation : Operation) :
    Hook.standard operation ((config.paging more).settingsFor operation) =
      Hook.standard operation (config.settingsFor operation) :=
  rfl

/-- Patterns for infinite hooks do not change the infinite hook of an operation. -/
theorem infinite_paging (operation : Operation) :
    Hook.infinite operation ((config.paging more).settingsFor operation) =
      Hook.infinite operation (config.settingsFor operation) :=
  rfl

/-- With more patterns an operation keeps its hooks. -/
theorem hooksOf_sublist_paging (h : config.infiniteQueries.patterns ⊆ more.patterns)
    (operation : Operation) :
    (hooksOf operation (config.settingsFor operation)).Sublist
      (hooksOf operation ((config.paging more).settingsFor operation)) := by
  rw [hooksOf, hooksOf, standard_paging, infinite_paging, infinite_settingsFor,
    infinite_settingsFor]
  refine List.Sublist.cons_cons _ ?_
  cases hpaged : config.wantsInfinite operation.name with
  | false => exact List.nil_sublist _
  | true =>
    have hmore : (config.paging more).wantsInfinite operation.name = true :=
      PatternSet.isMatch_mono h hpaged
    rw [hmore]

/-- With more patterns all operations keep their hooks, in their order. -/
theorem hooksFor_sublist_paging (h : config.infiniteQueries.patterns ⊆ more.patterns)
    (operations : List Operation) :
    (config.hooksFor operations).Sublist ((config.paging more).hooksFor operations) :=
  List.Sublist.flatMap_right _ fun operation _ => config.hooksOf_sublist_paging h operation

end Config

/-- Whether a hook fetches its result once. -/
def Hook.isStandard (hook : Hook) : Bool :=
  hook.variant == .standard

theorem Hook.isStandard_eq_false_iff {hook : Hook} :
    hook.isStandard = false ↔ hook.variant = .infinite := by
  cases h : hook.variant <;> simp [isStandard, h]

/-- Each operation has exactly one standard hook. -/
theorem filter_isStandard_hooksOf (operation : Operation) (settings : Hook.Settings) :
    (hooksOf operation settings).filter Hook.isStandard = [Hook.standard operation settings] := by
  have hinfinite : (Hook.infinite operation settings).isStandard = false := rfl
  have hstandard : (Hook.standard operation settings).isStandard = true := rfl
  rw [hooksOf]
  split
  · simp [hstandard, hinfinite]
  · simp [hstandard]

/-- The standard hooks are those of the operations that get hooks, one for each. -/
theorem Config.filter_isStandard_hooksFor (config : Config) (operations : List Operation) :
    (config.hooksFor operations).filter Hook.isStandard =
      (config.eligible operations).map fun operation =>
        Hook.standard operation (config.settingsFor operation) := by
  rw [hooksFor, List.filter_flatMap, List.map_eq_flatMap]
  simp only [filter_isStandard_hooksOf]

/-! ## Emission -/

namespace Emitter

variable {emitter other : Emitter}

/-- Hooks that are some of those of another emitter have distinct names if the others have. -/
theorem nodup_of_sublist (h : other.recordedHooks.Sublist emitter.recordedHooks)
    (hnodup : (emitter.recordedHooks.map Hook.name).Nodup) :
    (other.recordedHooks.map Hook.name).Nodup :=
  hnodup.sublist (h.map Hook.name)

/-- An emitter with some of the hooks of one that has no collision has none either. -/
theorem exists_emit_of_sublist (h : other.recordedHooks.Sublist emitter.recordedHooks)
    {module : Module} (hemit : emitter.emit = .ok module) :
    ∃ hooks fewer fewerModule, emitter.hooks = .ok hooks ∧ other.hooks = .ok fewer ∧
      other.emit = .ok fewerModule ∧ fewer.Sublist hooks := by
  obtain ⟨hooks, hhooks, _⟩ := exists_hooks_of_emit hemit
  obtain ⟨rfl, hnodup⟩ := hooks_eq_ok_iff.1 hhooks
  have hfewer := hooks_eq_ok (nodup_of_sublist h hnodup)
  obtain ⟨fewerModule, hmodule⟩ := exists_emit_of_hooks hfewer
  exact ⟨_, _, fewerModule, hhooks, hfewer, hmodule, h⟩

/-- An emitter with all hooks of one that has a collision has one too. -/
theorem exists_emit_eq_error_of_sublist (h : other.recordedHooks.Sublist emitter.recordedHooks)
    {error : HookCollision} (hemit : other.emit = .error error) :
    ∃ collision, emitter.emit = .error collision := by
  rw [exists_emit_eq_error_iff]
  intro hnodup
  exact exists_emit_eq_error_iff.1 ⟨error, hemit⟩ (nodup_of_sublist h hnodup)

/--
With more patterns that exclude queries an emission that succeeds goes on succeeding, and the hooks
that are left are unchanged and in order.  With more patterns for infinite hooks an emission that
fails goes on failing; where both succeed the hooks that there were are unchanged and in order, the
standard hooks are the same, and every hook that is new is infinite.
-/
theorem emission_is_monotone_in_patterns (config : Config) (more : PatternSet)
    (collector : Collector) :
    (config.excludeQueries.patterns ⊆ more.patterns →
      ∀ module, (Emitter.mk config collector).emit = .ok module →
        ∃ hooks fewer fewerModule, (Emitter.mk config collector).hooks = .ok hooks ∧
          (Emitter.mk (config.excluding more) collector).hooks = .ok fewer ∧
          (Emitter.mk (config.excluding more) collector).emit = .ok fewerModule ∧
          fewer.Sublist hooks) ∧
    (config.infiniteQueries.patterns ⊆ more.patterns →
      (∀ error, (Emitter.mk config collector).emit = .error error →
        ∃ collision, (Emitter.mk (config.paging more) collector).emit = .error collision) ∧
      ∀ module moreModule, (Emitter.mk config collector).emit = .ok module →
        (Emitter.mk (config.paging more) collector).emit = .ok moreModule →
        ∃ hooks added, (Emitter.mk config collector).hooks = .ok hooks ∧
          (Emitter.mk (config.paging more) collector).hooks = .ok added ∧
          hooks.Sublist added ∧
          added.filter Hook.isStandard = hooks.filter Hook.isStandard ∧
          ∀ hook ∈ added, hook ∉ hooks → hook.variant = .infinite) := by
  constructor
  · intro h module hemit
    exact exists_emit_of_sublist (config.hooksFor_excluding_sublist h _) hemit
  · intro h
    have hsublist : (Emitter.mk config collector).recordedHooks.Sublist
        (Emitter.mk (config.paging more) collector).recordedHooks :=
      config.hooksFor_sublist_paging h _
    have hstandard : (Emitter.mk (config.paging more) collector).recordedHooks.filter
      Hook.isStandard =
        (Emitter.mk config collector).recordedHooks.filter Hook.isStandard := by
      rw [recordedHooks, recordedHooks, Config.filter_isStandard_hooksFor,
        Config.filter_isStandard_hooksFor]
      rfl
    refine ⟨fun error hemit => exists_emit_eq_error_of_sublist hsublist hemit, ?_⟩
    intro module moreModule hemit hmore
    obtain ⟨added, hooks, _, hadded, hhooks, _, _⟩ := exists_emit_of_sublist hsublist hmore
    obtain ⟨rfl, _⟩ := hooks_eq_ok_iff.1 hadded
    obtain ⟨rfl, _⟩ := hooks_eq_ok_iff.1 hhooks
    refine ⟨_, _, hhooks, hadded, hsublist, hstandard, ?_⟩
    intro hook hhook hnew
    rw [← Hook.isStandard_eq_false_iff, Bool.eq_false_iff]
    intro hold
    -- A standard hook is among the standard hooks of both.
    have hmem := List.mem_filter.2 ⟨hhook, hold⟩
    rw [hstandard] at hmem
    exact hnew (List.mem_filter.1 hmem).1

end Emitter

/-- The patterns of the names that begin with `new` or `old`. -/
def newAndOld : PatternSet where
  globs := [⟨"new*", [.literal 'n', .literal 'e', .literal 'w', .anyBytes]⟩,
    ⟨"old*", [.literal 'o', .literal 'l', .literal 'd', .anyBytes]⟩]
  parsed := by
    rw [List.forall_mem_cons, List.forall_mem_singleton]
    constructor <;> cbv

/-- Three queries, of which one is old and one is new. -/
def threeQueries : Collector :=
  ⟨[userBy "id" "ID", { userBy "id" "ID" with name := "oldUser" },
    { userBy "id" "ID" with name := "newUser" }]⟩

/-- Two queries with the same name. -/
def twoUsers : Collector :=
  ⟨[userBy "id" "ID", userBy "key" "Int"]⟩

/-- With a pattern for new queries their hooks are left out, or they have infinite hooks too. -/
theorem emission_newAndOld :
    excludingOld.excludeQueries.patterns ⊆ newAndOld.patterns ∧
    (∃ module hooks fewer fewerModule, (Emitter.mk excludingOld threeQueries).emit = .ok module ∧
      (Emitter.mk excludingOld threeQueries).hooks = .ok hooks ∧
      (Emitter.mk (excludingOld.excluding newAndOld) threeQueries).hooks = .ok fewer ∧
      (Emitter.mk (excludingOld.excluding newAndOld) threeQueries).emit = .ok fewerModule ∧
      fewer.Sublist hooks) ∧
    ((∅ : PatternSet).patterns ⊆ newAndOld.patterns ∧
      (∃ error collision, (Emitter.mk {} twoUsers).emit = .error error ∧
        (Emitter.mk (Config.paging {} newAndOld) twoUsers).emit = .error collision) ∧
      ∃ module moreModule hooks added, (Emitter.mk {} threeQueries).emit = .ok module ∧
        (Emitter.mk (Config.paging {} newAndOld) threeQueries).emit = .ok moreModule ∧
        (Emitter.mk {} threeQueries).hooks = .ok hooks ∧
        (Emitter.mk (Config.paging {} newAndOld) threeQueries).hooks = .ok added ∧
        hooks.Sublist added ∧
        added.filter Hook.isStandard = hooks.filter Hook.isStandard ∧
        ∀ hook ∈ added, hook ∉ hooks → hook.variant = .infinite) := by
  have hold : excludingOld.excludeQueries.patterns ⊆ newAndOld.patterns := by decide
  have hnone : (∅ : PatternSet).patterns ⊆ newAndOld.patterns := List.nil_subset _
  have hemits (emitter : Emitter) (names : List String)
      (h : emitter.recordedHooks.map Hook.name = names)
      (hnodup : names.Nodup) : ∃ module, emitter.emit = .ok module :=
    Emitter.exists_emit_of_hooks (Emitter.hooks_eq_ok (h ▸ hnodup))
  obtain ⟨module, hmodule⟩ := hemits ⟨excludingOld, threeQueries⟩ ["useUser", "useNewUser"] (by cbv)
    (by decide)
  obtain ⟨plain, hplain⟩ :=
    hemits ⟨{}, threeQueries⟩ ["useUser", "useOldUser", "useNewUser"] (by cbv)
    (by decide)
  obtain ⟨paged, hpaged⟩ := hemits ⟨Config.paging {} newAndOld, threeQueries⟩
    ["useUser", "useOldUser", "useOldUserInfinite", "useNewUser", "useNewUserInfinite"] (by cbv)
    (by decide)
  have herror : (Emitter.mk {} twoUsers).emit = .error ⟨"user", "user", "useUser"⟩ := by cbv
  have hexcluding :=
    (Emitter.emission_is_monotone_in_patterns excludingOld newAndOld threeQueries).1 hold
  have hfailing := (Emitter.emission_is_monotone_in_patterns {} newAndOld twoUsers).2 hnone
  have hpaging := (Emitter.emission_is_monotone_in_patterns {} newAndOld threeQueries).2 hnone
  obtain ⟨hooks, fewer, fewerModule, hleft⟩ := hexcluding module hmodule
  obtain ⟨collision, hcollision⟩ := hfailing.1 _ herror
  obtain ⟨standard, added, hadded⟩ := hpaging.2 plain paged hplain hpaged
  exact ⟨hold, ⟨module, hooks, fewer, fewerModule, hmodule, hleft⟩, hnone,
    ⟨_, collision, herror, hcollision⟩, plain, paged, standard, added, hplain, hpaged, hadded⟩

end QueryHooks
