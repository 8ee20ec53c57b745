import QueryHooks.Proofs.Casing.Reading
import QueryHooks.Proofs.Emission.Ownership

/-!
# Causes of collisions

The name of a hook can be read back into the words of the name of its operation, with the word
`infinite` behind them for an infinite hook.  So two hooks share a name only in two ways: their
operations have the same words, or one of them is the infinite hook of an operation to whose words
the other operation adds the word `infinite`.

Main results:

- Theorem `hookName_eq_iff`: names of hooks are equal exactly if their words are.
- Theorem `nodup_names_hooksOf`: the hooks of one operation have distinct names.
- Theorem `Emitter.emission_fails_iff_words_clash`: what the collisions of an emitter come from.
-/

namespace QueryHooks

open Casing (IsWord lower lowerWords pascalOfWords)

/-! ## The words of a hook name -/

/-- The words, in lower case, that the ending of a hook name is made of. -/
def Hook.Variant.endingWords : Hook.Variant → List (List Char)
  | standard => []
  | infinite => ["infinite".toList]

/-- The words, in lower case, that the name of a hook is made of behind `use`. -/
def hookWords (operationName : String) (variant : Hook.Variant) : List (List Char) :=
  lowerWords operationName ++ variant.endingWords

/-- A last word that begins with no digit stands at the end as it is. -/
theorem Casing.pascalOfWords_concat {ws : List (List Char)} {word : List Char}
    (h : word.head?.any Char.isDigit = false) :
    pascalOfWords (ws ++ [word]) = pascalOfWords ws ++ capitalize word := by
  cases ws with
  | nil => simp [pascalOfWords]
  | cons first later => simp [pascalOfWords, joined, h]

/-- The name of a hook is `use` and its words in PascalCase. -/
theorem toList_hookName (operationName : String) (variant : Hook.Variant) :
    (hookName operationName variant).toList =
      "use".toList ++ pascalOfWords (hookWords operationName variant) := by
  have hwords : pascalOfWords (lowerWords operationName) =
      (Casing.pascal operationName).toList := by
    rw [lowerWords, Casing.pascalOfWords_map_lower, Casing.toList_pascal]
  cases variant with
  | standard =>
    simp [hookName, hookWords, Hook.Variant.ending, Hook.Variant.endingWords, hwords]
  | infinite =>
    have hending : Casing.capitalize "infinite".toList = "Infinite".toList := by decide
    rw [hookWords, Hook.Variant.endingWords, Casing.pascalOfWords_concat (by decide), hwords,
      hending]
    simp [hookName, Hook.Variant.ending]

/-- A word in lower case is a word. -/
theorem Casing.isWord_lower {word : List Char} (h : IsWord word) : IsWord (lower word) where
  ne_nil := by
    rw [lower, ne_eq, List.map_eq_nil_iff]
    exact h.ne_nil
  isAlphanum := by
    intro c hc
    obtain ⟨d, hd, rfl⟩ := List.mem_map.1 hc
    simpa using h.isAlphanum d hd

/-- Lower case is lower case already. -/
@[simp]
theorem Casing.lower_lower (word : List Char) : lower (lower word) = lower word := by
  simp [lower]

/-- The words of a hook name are words. -/
theorem isWord_of_mem_hookWords {operationName : String} {variant : Hook.Variant} :
    ∀ w ∈ hookWords operationName variant, IsWord w := by
  intro w hw
  rcases List.mem_append.1 hw with hname | hending
  · obtain ⟨word, hword, rfl⟩ := List.mem_map.1 hname
    exact Casing.isWord_lower (Casing.isWord_of_mem_words word hword)
  · cases variant with
    | standard => exact absurd hending List.not_mem_nil
    | infinite =>
      rw [List.mem_singleton.1 hending]
      exact ⟨by simp, by simp⟩

/-- The words of a hook name are in lower case. -/
theorem map_lower_hookWords (operationName : String) (variant : Hook.Variant) :
    (hookWords operationName variant).map lower = hookWords operationName variant := by
  have hending : variant.endingWords.map lower = variant.endingWords := by
    cases variant <;> decide
  rw [hookWords, List.map_append, hending, lowerWords, List.map_map]
  congr 2
  funext word
  exact Casing.lower_lower word

/-- Two hooks share a name exactly if the words of their names are the same. -/
theorem hookName_eq_iff {operationName other : String} {variant another : Hook.Variant} :
    hookName operationName variant = hookName other another ↔
      hookWords operationName variant = hookWords other another := by
  rw [← String.toList_inj, toList_hookName, toList_hookName, List.append_cancel_left_eq,
    Casing.pascalOfWords_eq_iff isWord_of_mem_hookWords isWord_of_mem_hookWords,
    map_lower_hookWords, map_lower_hookWords]

/-! ## The hooks of one operation -/

/-- The variants in which an operation has hooks under some settings. -/
def Hook.Settings.variants (settings : Hook.Settings) : List Hook.Variant :=
  .standard :: if settings.infinite then [.infinite] else []

/-- The names of the hooks of an operation are those of its variants. -/
theorem names_hooksOf (operation : Operation) (settings : Hook.Settings) :
    (hooksOf operation settings).map Hook.name =
      settings.variants.map (hookName operation.name) := by
  cases h : settings.infinite <;>
    simp [hooksOf, Hook.Settings.variants, h, Hook.standard, Hook.infinite]

/-- The standard and the infinite hook of an operation have different names. -/
theorem hookName_standard_ne_infinite (operationName : String) :
    hookName operationName .standard ≠ hookName operationName .infinite := by
  intro h
  have hlength := congrArg List.length (hookName_eq_iff.1 h)
  simp [hookWords, Hook.Variant.endingWords] at hlength

/-- The hooks of one operation have distinct names. -/
theorem nodup_names_hooksOf (operation : Operation) (settings : Hook.Settings) :
    ((hooksOf operation settings).map Hook.name).Nodup := by
  rw [names_hooksOf]
  cases h : settings.infinite with
  | false => simp [Hook.Settings.variants, h]
  | true => simp [Hook.Settings.variants, h, hookName_standard_ne_infinite]

/-! ## Hooks of two operations -/

/-- A pattern can match a name only if there are patterns. -/
theorem Config.infinite_settingsFor (config : Config) (operation : Operation) :
    (config.settingsFor operation).infinite = config.wantsInfinite operation.name := by
  cases h : config.infiniteQueries.isEmpty with
  | true =>
    have hnone := PatternSet.isMatch_of_isEmpty h operation.name
    simp [settingsFor, infiniteEnabled, wantsInfinite, h, hnone]
  | false => simp [settingsFor, infiniteEnabled, wantsInfinite, h]

/-- The first operation has an infinite hook whose words are those of the second operation. -/
def Config.PagesOnto (config : Config) (paged other : Operation) : Prop :=
  config.wantsInfinite paged.name = true ∧
    lowerWords other.name = lowerWords paged.name ++ ["infinite".toList]

/-- The hook names of two operations have one in common. -/
def Config.Clash (config : Config) (operation other : Operation) : Prop :=
  lowerWords operation.name = lowerWords other.name ∨
    config.PagesOnto operation other ∨ config.PagesOnto other operation

/-- The names of the hooks that an operation has under a configuration. -/
def Config.namesFor (config : Config) (operation : Operation) : List String :=
  (hooksOf operation (config.settingsFor operation)).map Hook.name

/-- An operation has the name of its standard hook, and that of its infinite one if it wants it. -/
theorem Config.mem_namesFor_iff {config : Config} {operation : Operation} {name : String} :
    name ∈ config.namesFor operation ↔
      name = hookName operation.name .standard ∨
        (config.wantsInfinite operation.name = true ∧
          name = hookName operation.name .infinite) := by
  rw [namesFor, names_hooksOf, Hook.Settings.variants, infinite_settingsFor]
  cases config.wantsInfinite operation.name <;> simp

/-- Two operations have a hook name in common exactly if their words clash. -/
theorem Config.not_disjoint_namesFor_iff {config : Config} {operation other : Operation} :
    ¬(config.namesFor operation).Disjoint (config.namesFor other) ↔
      config.Clash operation other := by
  constructor
  · intro h
    simp only [List.Disjoint, not_forall, mem_namesFor_iff] at h
    obtain ⟨name, hname | ⟨hpaged, hname⟩, hother | ⟨hotherPaged, hother⟩, _⟩ := h
    all_goals
      have hwords := hookName_eq_iff.1 (hname.symm.trans hother)
      simp only [hookWords, Hook.Variant.endingWords, List.append_nil,
        List.append_cancel_right_eq] at hwords
    · exact .inl hwords
    · exact .inr (.inr ⟨hotherPaged, hwords⟩)
    · exact .inr (.inl ⟨hpaged, hwords.symm⟩)
    · exact .inl hwords
  · rintro (hsame | ⟨hpaged, hwords⟩ | ⟨hpaged, hwords⟩) hdisjoint
    · refine hdisjoint (mem_namesFor_iff.2 (.inl rfl)) (mem_namesFor_iff.2 (.inl ?_))
      rw [hookName_eq_iff, hookWords, hookWords, hsame]
    · refine hdisjoint (mem_namesFor_iff.2 (.inr ⟨hpaged, rfl⟩)) (mem_namesFor_iff.2 (.inl ?_))
      rw [hookName_eq_iff, hookWords, hookWords, hwords]
      simp [Hook.Variant.endingWords]
    · refine hdisjoint (mem_namesFor_iff.2 (.inl rfl)) (mem_namesFor_iff.2 (.inr ⟨hpaged, ?_⟩))
      rw [hookName_eq_iff, hookWords, hookWords, hwords]
      simp [Hook.Variant.endingWords]

/-! ## Hooks of many operations -/

/-- All hook names are distinct exactly if no two operations clash. -/
theorem Config.nodup_names_hooksFor_iff (config : Config) (operations : List Operation) :
    ((config.hooksFor operations).map Hook.name).Nodup ↔
      (config.eligible operations).Pairwise fun operation other =>
        ¬config.Clash operation other := by
  have hnames : (config.hooksFor operations).map Hook.name =
      (config.eligible operations).flatMap config.namesFor := by
    rw [hooksFor, List.map_flatMap]
    rfl
  rw [hnames, List.nodup_flatMap]
  constructor
  · rintro ⟨_, hpairs⟩
    refine hpairs.imp ?_
    intro operation other hdisjoint hclash
    exact not_disjoint_namesFor_iff.2 hclash hdisjoint
  · intro hpairs
    refine ⟨fun operation _ => nodup_names_hooksOf operation _, hpairs.imp ?_⟩
    intro operation other hclash
    by_contra hdisjoint
    exact hclash (not_disjoint_namesFor_iff.1 hdisjoint)

/-- A property that does not hold of all pairs of a list fails at two places of it. -/
private theorem not_pairwise_iff {α : Type} {r : α → α → Prop} {entries : List α} :
    ¬entries.Pairwise (fun a b => ¬r a b) ↔
      ∃ (i j : Nat) (a b : α), i < j ∧ entries[i]? = some a ∧ entries[j]? = some b ∧ r a b := by
  rw [List.pairwise_iff_getElem]
  push Not
  constructor
  · rintro ⟨i, j, hi, hj, hlt, hr⟩
    exact ⟨i, j, _, _, hlt, List.getElem?_eq_getElem hi, List.getElem?_eq_getElem hj, hr⟩
  · rintro ⟨i, j, a, b, hlt, ha, hb, hr⟩
    obtain ⟨hi, rfl⟩ := List.getElem?_eq_some_iff.1 ha
    obtain ⟨hj, rfl⟩ := List.getElem?_eq_some_iff.1 hb
    exact ⟨i, j, hi, hj, hlt, hr⟩

/--
Emission fails exactly if two of the operations that get hooks have the same words up to case, or if
the words of one are those of another that has an infinite hook, with the word `infinite` behind
them.  The hooks of a single operation never collide.
-/
theorem Emitter.emission_fails_iff_words_clash (emitter : Emitter) :
    let eligible := emitter.config.eligible emitter.collector.operations
    ((∃ collision, emitter.emit = .error collision) ↔
      (∃ (i j : Nat) (operation other : Operation),
        i < j ∧ eligible[i]? = some operation ∧ eligible[j]? = some other ∧
        lowerWords operation.name = lowerWords other.name) ∨
      (∃ (i j : Nat) (paged other : Operation),
        i ≠ j ∧ eligible[i]? = some paged ∧ eligible[j]? = some other ∧
        emitter.config.wantsInfinite paged.name = true ∧
        lowerWords other.name = lowerWords paged.name ++ ["infinite".toList])) ∧
    ∀ (operation : Operation) (settings : Hook.Settings),
      ((hooksOf operation settings).map Hook.name).Nodup := by
  intro eligible
  refine ⟨?_, nodup_names_hooksOf⟩
  rw [exists_emit_eq_error_iff, recordedHooks, Config.nodup_names_hooksFor_iff, not_pairwise_iff]
  constructor
  · rintro ⟨i, j, operation, other, hlt, hi, hj, hsame | ⟨hpaged, hwords⟩ | ⟨hpaged, hwords⟩⟩
    · exact .inl ⟨i, j, operation, other, hlt, hi, hj, hsame⟩
    · exact .inr ⟨i, j, operation, other, hlt.ne, hi, hj, hpaged, hwords⟩
    · exact .inr ⟨j, i, other, operation, hlt.ne', hj, hi, hpaged, hwords⟩
  · rintro (⟨i, j, operation, other, hlt, hi, hj, hsame⟩ |
      ⟨i, j, paged, other, hne, hi, hj, hpaged, hwords⟩)
    · exact ⟨i, j, operation, other, hlt, hi, hj, .inl hsame⟩
    · rcases Nat.lt_or_gt_of_ne hne with hlt | hlt
      · exact ⟨i, j, paged, other, hlt, hi, hj, .inr (.inl ⟨hpaged, hwords⟩)⟩
      · exact ⟨j, i, other, paged, hlt, hj, hi, .inr (.inr ⟨hpaged, hwords⟩)⟩

end QueryHooks
