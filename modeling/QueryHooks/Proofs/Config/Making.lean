import QueryHooks.Config.Basic

/-!
# What a configuration takes from its options

Options that make a configuration have affixes that can stand in names of types.  The configuration
keeps these and the switches as they are, and of each pattern option it keeps the patterns that are
not empty.

Main results:

- Theorems `PatternSet.ofList_eq_ok_iff` and `PatternSet.ofList_eq_error_iff`: when texts make a
  set.
- Theorem `PatternSet.patterns_of_ofList`: which texts a set keeps.
- Theorem `Config.readPatterns_eq`: the patterns of an option are read as they are given.
- Definition `Config.Reflects`: a configuration is made from some options.
- Theorem `Config.ofOptions_eq_ok_iff`: when options make a configuration, and which one.
- Theorem `Config.reflects_of_ofOptions`: what options have to do with the configuration they make.
- Theorem `Config.Reflects.infiniteEnabled_iff`: infinite hooks are enabled by a pattern that is not
  empty.
-/

namespace QueryHooks

/-! ## Sets of patterns -/

namespace PatternSet

/-- Empty texts are passed over, wherever they stand. -/
theorem readAll_filter (texts : List String) :
    readAll (texts.filter (!·.isEmpty)) = readAll texts := by
  induction texts with
  | nil => rfl
  | cons text texts ih =>
    cases hempty : text.isEmpty with
    | true => simp [readAll, hempty, ih]
    | false => simp [readAll, hempty, ih]

/-- What is read are the texts that are not empty, in their order. -/
theorem sources_of_readAll {texts : List String} {globs : List Glob}
    (h : readAll texts = .ok globs) :
    globs.map Glob.source = texts.filter (!·.isEmpty) := by
  induction texts generalizing globs with
  | nil =>
    obtain rfl := Except.ok.inj h
    rfl
  | cons text texts ih =>
    rw [readAll] at h
    split at h
    · rename_i hempty
      simpa [hempty] using ih h
    · rename_i hne
      split at h
      · exact absurd h (by simp)
      · rename_i glob hglob
        cases hlater : readAll texts with
        | error error => simp [hlater, Except.map] at h
        | ok others =>
          obtain rfl : glob :: others = globs := by simpa [hlater, Except.map] using h
          simp [hne, ih hlater, Glob.source_of_parse hglob]

/-- Texts make a set exactly if all that are not empty are globs, none of which nests too deep. -/
theorem ofList_eq_ok_iff {texts : List String} {set : PatternSet} :
    ofList texts = .ok set ↔
      readAll texts = .ok set.globs ∧ ∀ glob ∈ set.globs, glob.depth ≤ Glob.maxDepth := by
  unfold ofList
  split
  · rename_i error hread
    simp [hread]
  · rename_i globs hread
    have hglobs : readAll texts = .ok set.globs ↔ globs = set.globs := by simp [hread]
    rw [hglobs]
    split
    · rename_i hdeep
      refine iff_of_false (by simp) ?_
      rintro ⟨rfl, hdepth⟩
      obtain ⟨glob, hglob, hlt⟩ := List.any_eq_true.1 hdeep
      exact absurd (hdepth glob hglob) (by simpa using hlt)
    · rename_i hdeep
      have hdepth : ∀ glob ∈ globs, glob.depth ≤ Glob.maxDepth := by simpa using hdeep
      rw [Except.ok.injEq]
      constructor
      · rintro rfl
        exact ⟨rfl, hdepth⟩
      · rintro ⟨rfl, -⟩
        rfl

/--
Texts make no set exactly if one of them is no glob, or if all are but one of these nests too deep.
-/
theorem ofList_eq_error_iff {texts : List String} {error : Error} :
    ofList texts = .error error ↔ readAll texts = .error error ∨
      ∃ globs, readAll texts = .ok globs ∧ (∃ glob ∈ globs, Glob.maxDepth < glob.depth) ∧
        error = .tooDeep (globs.map Glob.source) := by
  unfold ofList
  split
  · rename_i fault hread
    simp [hread]
  · rename_i globs hread
    simp only [hread, reduceCtorEq, false_or, Except.ok.injEq, exists_eq_left']
    split
    · rename_i hdeep
      obtain ⟨glob, hglob, hlt⟩ := List.any_eq_true.1 hdeep
      have hexists : ∃ glob ∈ globs, Glob.maxDepth < glob.depth := ⟨glob, hglob, by simpa using hlt⟩
      simp only [hexists, true_and, Except.error.injEq, eq_comm]
    · rename_i hdeep
      refine iff_of_false (by simp) ?_
      rintro ⟨⟨glob, hglob, hlt⟩, -⟩
      exact hdeep (List.any_eq_true.2 ⟨glob, hglob, by simpa using hlt⟩)

/-- Texts that are read alike make the same set, or fail to make one for the same reason. -/
theorem ofList_congr {texts others : List String} (h : readAll texts = readAll others) :
    ofList texts = ofList others := by
  cases hothers : ofList others with
  | ok set =>
    rw [ofList_eq_ok_iff] at hothers ⊢
    rwa [h]
  | error error =>
    rw [ofList_eq_error_iff] at hothers ⊢
    rwa [h]

/-- A set keeps the texts that are not empty, in their order. -/
theorem patterns_of_ofList {texts : List String} {set : PatternSet} (h : ofList texts = .ok set) :
    set.patterns = texts.filter (!·.isEmpty) :=
  sources_of_readAll (ofList_eq_ok_iff.1 h).1

/-- A set of patterns is empty if all texts are. -/
theorem isEmpty_iff_of_ofList {texts : List String} {set : PatternSet}
    (h : ofList texts = .ok set) :
    set.isEmpty = true ↔ ∀ text ∈ texts, text = "" := by
  rw [isEmpty_iff, patterns_of_ofList h, List.filter_eq_nil_iff]
  simp

end PatternSet

/-! ## Options and configurations -/

/-- The patterns of an option as they are given, the empty ones among them. -/
def PatternSetting.given : PatternSetting → List String
  | single pattern => [pattern]
  | multiple patterns => patterns

/-- The patterns that are given for an option, if it is set at all. -/
def PatternSetting.allGiven (setting? : Option PatternSetting) : List String :=
  setting?.elim [] given

/-- The empty patterns that a setting gives make no difference. -/
theorem PatternSet.readAll_patterns (setting : PatternSetting) :
    readAll setting.patterns = readAll setting.given := by
  cases setting with
  | single pattern => exact readAll_filter [pattern]
  | multiple patterns => exact readAll_filter patterns

/-- Some pattern of an option is not empty. -/
def PatternSetting.IsUsed (setting? : Option PatternSetting) : Prop :=
  ∃ setting ∈ setting?, ∃ pattern ∈ setting.given, pattern ≠ ""

namespace Config

/-- A chain that succeeds has succeeded in its first step and in the others. -/
theorem bind_eq_ok {ε α β : Type} {first : Except ε α} {next : α → Except ε β} {result : β}
    (h : (first >>= next) = .ok result) : ∃ value, first = .ok value ∧ next value = .ok result := by
  cases first with
  | error error => exact absurd h (by simp [bind, Except.bind])
  | ok value => exact ⟨value, rfl, h⟩

/-- An affix passes as it is if all its characters can be in the name of a type. -/
theorem checkAffix_eq_ok_iff {option : OptionName} {value affix : String} :
    checkAffix option value = .ok affix ↔ value = affix ∧
      ∀ c ∈ value.toList, isNamePart c = true := by
  rw [checkAffix]
  split
  · rename_i hall
    simpa using fun _ => List.all_eq_true.1 hall
  · rename_i hall
    have hnot : ¬∀ c ∈ value.toList, isNamePart c = true := fun h => hall (List.all_eq_true.2 h)
    simp only [reduceCtorEq, hnot, and_false]

/--
The patterns of an option make a set or fail to, whether the empty ones are left out before or not.
-/
theorem readPatterns_eq (option : OptionName) (setting? : Option PatternSetting) :
    readPatterns option setting? =
      (PatternSet.ofList (PatternSetting.allGiven setting?)).mapError (.invalidPattern option) := by
  have hgiven : PatternSet.ofList (setting?.elim [] PatternSetting.patterns) =
      PatternSet.ofList (PatternSetting.allGiven setting?) := by
    cases setting? with
    | none => rfl
    | some setting => exact PatternSet.ofList_congr (PatternSet.readAll_patterns setting)
  rw [readPatterns, hgiven]
  cases PatternSet.ofList (PatternSetting.allGiven setting?) <;> rfl

/-- The patterns of an option are the set that its texts make. -/
theorem readPatterns_eq_ok_iff {option : OptionName} {setting? : Option PatternSetting}
    {set : PatternSet} : readPatterns option setting? = .ok set ↔
      PatternSet.ofList (PatternSetting.allGiven setting?) = .ok set := by
  rw [readPatterns_eq]
  cases PatternSet.ofList (PatternSetting.allGiven setting?) with
  | error fault => exact iff_of_false nofun nofun
  | ok other =>
    constructor
    · intro h
      rw [Except.ok.inj h]
    · intro h
      rw [Except.ok.inj h]
      rfl

/-- The patterns of an option fail as their set does, and the option is named. -/
theorem readPatterns_eq_error_iff {option : OptionName} {setting? : Option PatternSetting}
    {error : Error} : readPatterns option setting? = .error error ↔
      ∃ fault, PatternSet.ofList (PatternSetting.allGiven setting?) = .error fault ∧
        error = .invalidPattern option fault := by
  rw [readPatterns_eq]
  cases PatternSet.ofList (PatternSetting.allGiven setting?) with
  | ok set =>
    refine iff_of_false nofun ?_
    rintro ⟨fault, hfault, -⟩
    cases hfault
  | error fault =>
    constructor
    · intro h
      exact ⟨fault, rfl, (Except.error.inj h).symm⟩
    · rintro ⟨other, hother, rfl⟩
      rw [Except.error.inj hother]
      rfl

/-- The set of an option has patterns if the option is used. -/
theorem readPatterns_eq_ok {option : OptionName} {setting? : Option PatternSetting}
    {set : PatternSet} (h : readPatterns option setting? = .ok set) :
    set.isEmpty = false ↔ PatternSetting.IsUsed setting? := by
  rw [readPatterns_eq_ok_iff] at h
  rw [← Bool.not_eq_true, PatternSet.isEmpty_iff_of_ofList h, PatternSetting.IsUsed,
    PatternSetting.allGiven]
  cases setting? <;> simp

/-- Options make a configuration exactly if their affixes pass and their patterns make sets. -/
theorem ofOptions_eq_ok_iff {options : Options} {config : Config} :
    ofOptions options = .ok config ↔ ∃ excludeQueries infiniteQueries,
      checkAffix .typesPrefix options.typesPrefix = .ok options.typesPrefix ∧
      checkAffix .typesSuffix options.typesSuffix = .ok options.typesSuffix ∧
      readPatterns .excludeQueries options.excludeQueries? = .ok excludeQueries ∧
      readPatterns .infiniteQueries options.infiniteQueries? = .ok infiniteQueries ∧
      config = {
        autogenKey := options.autogenKey
        excludeQueries
        infiniteQueries
        rawResponse := options.rawResponse
        affixes := ⟨options.typesPrefix, options.typesSuffix⟩
        useTypeImports := options.useTypeImports } := by
  constructor
  · intro h
    obtain ⟨before, hbefore, h⟩ := bind_eq_ok h
    obtain ⟨after, hafter, h⟩ := bind_eq_ok h
    obtain ⟨excluded, hexcluded, h⟩ := bind_eq_ok h
    obtain ⟨infinite, hinfinite, h⟩ := bind_eq_ok h
    obtain ⟨rfl, -⟩ := checkAffix_eq_ok_iff.1 hbefore
    obtain ⟨rfl, -⟩ := checkAffix_eq_ok_iff.1 hafter
    exact ⟨excluded, infinite, hbefore, hafter, hexcluded, hinfinite, (Except.ok.inj h).symm⟩
  · rintro ⟨excluded, infinite, hbefore, hafter, hexcluded, hinfinite, rfl⟩
    rw [ofOptions, hbefore, hafter, hexcluded, hinfinite]
    rfl

/-- A configuration is made from some options. -/
structure Reflects (options : Options) (config : Config) : Prop where
  autogenKey_eq : config.autogenKey = options.autogenKey
  rawResponse_eq : config.rawResponse = options.rawResponse
  useTypeImports_eq : config.useTypeImports = options.useTypeImports
  affixes_eq : config.affixes = ⟨options.typesPrefix, options.typesSuffix⟩
  before : ∀ c ∈ config.affixes.before.toList, isNamePart c = true
  after : ∀ c ∈ config.affixes.after.toList, isNamePart c = true
  exclusionEnabled_iff :
    config.exclusionEnabled = true ↔ PatternSetting.IsUsed options.excludeQueries?
  infiniteEnabled_iff :
    config.infiniteEnabled = true ↔ PatternSetting.IsUsed options.infiniteQueries?

/-- Options make a configuration that reflects them. -/
theorem reflects_of_ofOptions {options : Options} {config : Config}
    (h : ofOptions options = .ok config) : Reflects options config := by
  obtain ⟨excluded, infinite, hbefore, hafter, hexcluded, hinfinite, rfl⟩ := ofOptions_eq_ok_iff.1 h
  obtain ⟨-, hbegins⟩ := checkAffix_eq_ok_iff.1 hbefore
  obtain ⟨-, hsuffix⟩ := checkAffix_eq_ok_iff.1 hafter
  have hexclusion := readPatterns_eq_ok hexcluded
  have hinfinite := readPatterns_eq_ok hinfinite
  exact
    { autogenKey_eq := rfl
      rawResponse_eq := rfl
      useTypeImports_eq := rfl
      affixes_eq := rfl
      before := hbegins
      after := hsuffix
      exclusionEnabled_iff := by simpa [exclusionEnabled] using hexclusion
      infiniteEnabled_iff := by simpa [infiniteEnabled] using hinfinite }

end Config

end QueryHooks
