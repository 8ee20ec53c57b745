import QueryHooks.Proofs.Config.Making
import QueryHooks.Proofs.Text.Letters

/-!
# Settings made one after the other

Options may be set in any order and more than once.  Nothing is checked before the end, so what was
set and then set again leaves no trace: the configuration is made from the last value of each
option.  It is checked in a fixed order, the affixes before the patterns, and the first check that
fails gives the error.

Main results:

- Definition `Options.HoldsLast`: options hold the last value that some settings give to each of
  them.
- Theorem `Options.get_ofSettings`: so do the options that are set one after the other.
- Definition `Config.IsAffix`: the characters of an affix.
- Definition `Config.FirstFault`: the first check of some options that fails.
- Definition `Config.Keeps`: a configuration keeps the patterns of some options.
- Theorem `Config.configuration_of_last_values`: which settings make a configuration, and which one.
-/

namespace QueryHooks

/-! ## The values of options -/

namespace Options

/-- The value of an option, as the setting that gives this value. -/
def get (options : Options) : OptionName → Setting
  | .excludeQueries => .excludeQueries options.excludeQueries?
  | .infiniteQueries => .infiniteQueries options.infiniteQueries?
  | .autogenKey => .autogenKey options.autogenKey
  | .rawResponse => .rawResponse options.rawResponse
  | .typesPrefix => .typesPrefix options.typesPrefix
  | .typesSuffix => .typesSuffix options.typesSuffix
  | .useTypeImports => .useTypeImports options.useTypeImports

/-- A setting changes the value of its option only. -/
theorem get_set (options : Options) (setting : Setting) (option : OptionName) :
    (options.set setting).get option =
      if setting.name = option then setting else options.get option := by
  cases setting <;> cases option <;> rfl

/-- Options are told apart by their values. -/
theorem eq_of_get_eq {options other : Options}
    (h : ∀ option, options.get option = other.get option) :
    options = other := by
  have hexclude := h .excludeQueries
  have hinfinite := h .infiniteQueries
  have hkey := h .autogenKey
  have hraw := h .rawResponse
  have hbefore := h .typesPrefix
  have hafter := h .typesSuffix
  have himports := h .useTypeImports
  cases options
  cases other
  simp_all [get]

/-- The last of some settings that is for an option. -/
def lastFor? (settings : List Setting) (option : OptionName) : Option Setting :=
  settings.reverse.find? (·.name == option)

/-- The last setting counts if it is for the option, and otherwise the one before. -/
theorem lastFor?_concat (settings : List Setting) (setting : Setting) (option : OptionName) :
    lastFor? (settings ++ [setting]) option =
      if setting.name = option then some setting else lastFor? settings option := by
  rw [lastFor?, List.reverse_append, List.reverse_singleton, List.singleton_append]
  by_cases h : setting.name = option
  · simp [h]
  · have hne : (setting.name == option) = false := by simpa using h
    rw [List.find?_cons_of_neg (by simp [hne]), if_neg h, lastFor?]

/-- The last setting is made last. -/
theorem ofSettings_concat (settings : List Setting) (setting : Setting) :
    ofSettings (settings ++ [setting]) = (ofSettings settings).set setting := by
  simp [ofSettings]

/-- Each option has the last value given for it, or its default if there is none. -/
def HoldsLast (settings : List Setting) (options : Options) : Prop :=
  ∀ option, options.get option = (lastFor? settings option).getD (({} : Options).get option)

/-- Options that are set one after the other hold the last value of each. -/
theorem holdsLast_ofSettings (settings : List Setting) :
    HoldsLast settings (ofSettings settings) := by
  intro option
  induction settings using List.reverseRecOn with
  | nil => rfl
  | append_singleton settings setting ih =>
    rw [ofSettings_concat, get_set, lastFor?_concat, ih]
    by_cases h : setting.name = option
    · simp [h]
    · simp [h]

/-- No other options hold these values. -/
theorem HoldsLast.eq {settings : List Setting} {options : Options}
    (h : HoldsLast settings options) :
    ofSettings settings = options := by
  apply eq_of_get_eq
  intro option
  rw [h option, holdsLast_ofSettings settings option]

/-- A setting does not count if its option is set again later. -/
theorem lastFor?_overwritten {setting later : Setting} (h : later.name = setting.name)
    (front middle back : List Setting) :
    lastFor? (front ++ setting :: (middle ++ later :: back)) =
      lastFor? (front ++ (middle ++ later :: back)) := by
  funext option
  simp only [lastFor?, List.reverse_append, List.reverse_cons, List.append_assoc, List.find?_append,
    List.singleton_append]
  by_cases hoption : later.name = option
  · simp [hoption]
  · have hother : setting.name ≠ option := h ▸ hoption
    simp [List.find?_cons_of_neg, hoption, hother]

end Options

/-! ## Checks -/

namespace Config

/-- Every character is a letter, a digit, an underscore or a dollar sign. -/
def IsAffix (value : String) : Prop :=
  ∀ c ∈ value.toList,
    'A' ≤ c ∧ c ≤ 'Z' ∨ 'a' ≤ c ∧ c ≤ 'z' ∨ '0' ≤ c ∧ c ≤ '9' ∨ c = '_' ∨ c = '$'

/-- The characters of names are the letters and digits, the underscore and the dollar sign. -/
theorem isNamePart_iff {c : Char} : isNamePart c = true ↔
    'A' ≤ c ∧ c ≤ 'Z' ∨ 'a' ≤ c ∧ c ≤ 'z' ∨ '0' ≤ c ∧ c ≤ '9' ∨ c = '_' ∨ c = '$' := by
  have hle (c d : Char) : c ≤ d ↔ c.toNat ≤ d.toNat := by
    rw [Char.le_def, UInt32.le_iff_toNat_le, Char.toNat_val, Char.toNat_val]
  rw [isNamePart, Bool.or_eq_true, Bool.or_eq_true, Char.isAlphanum, Bool.or_eq_true,
    Text.isAlpha_iff, Text.isUpper_iff, Text.isLower_iff, Text.isDigit_iff, beq_iff_eq, beq_iff_eq]
  simp only [hle, or_assoc]
  rfl

/-- An affix passes. -/
theorem checkAffix_of_isAffix {value : String} (h : IsAffix value) (option : OptionName) :
    checkAffix option value = .ok value :=
  checkAffix_eq_ok_iff.2 ⟨rfl, fun c hc => isNamePart_iff.2 (h c hc)⟩

/-- Anything else fails, and the option is named with its value. -/
theorem checkAffix_of_not_isAffix {value : String} (h : ¬IsAffix value) (option : OptionName) :
    checkAffix option value = .error (.invalidAffix option value) := by
  have hall : ¬value.toList.all isNamePart = true := by
    intro hall
    exact h fun c hc => isNamePart_iff.1 (List.all_eq_true.1 hall c hc)
  rw [checkAffix, if_neg hall]

/-- All checks of some options succeed. -/
structure Passes (options : Options) : Prop where
  typesPrefix : IsAffix options.typesPrefix
  typesSuffix : IsAffix options.typesSuffix
  excludeQueries :
    ∃ set, PatternSet.ofList (PatternSetting.allGiven options.excludeQueries?) = .ok set
  infiniteQueries :
    ∃ set, PatternSet.ofList (PatternSetting.allGiven options.infiniteQueries?) = .ok set

/-- The first check of some options that fails gives an error. -/
inductive FirstFault (options : Options) : Error → Prop where
  | typesPrefix (hfault : ¬IsAffix options.typesPrefix) :
    FirstFault options (.invalidAffix .typesPrefix options.typesPrefix)
  | typesSuffix (hbefore : IsAffix options.typesPrefix) (hfault : ¬IsAffix options.typesSuffix) :
    FirstFault options (.invalidAffix .typesSuffix options.typesSuffix)
  | excludeQueries {fault : PatternSet.Error} (hbefore : IsAffix options.typesPrefix)
      (hafter : IsAffix options.typesSuffix)
      (hfault : PatternSet.ofList (PatternSetting.allGiven options.excludeQueries?) =
        .error fault) :
    FirstFault options (.invalidPattern .excludeQueries fault)
  | infiniteQueries {set : PatternSet} {fault : PatternSet.Error}
      (hbefore : IsAffix options.typesPrefix) (hafter : IsAffix options.typesSuffix)
      (hexclude : PatternSet.ofList (PatternSetting.allGiven options.excludeQueries?) = .ok set)
      (hfault : PatternSet.ofList (PatternSetting.allGiven options.infiniteQueries?) =
        .error fault) :
    FirstFault options (.invalidPattern .infiniteQueries fault)

/-- Options pass or have a first fault. -/
theorem passes_or_firstFault (options : Options) :
    Passes options ∨ ∃ error, FirstFault options error := by
  by_cases hbefore : IsAffix options.typesPrefix
  · by_cases hafter : IsAffix options.typesSuffix
    · cases hexclude : PatternSet.ofList (PatternSetting.allGiven options.excludeQueries?) with
      | error fault => exact .inr ⟨_, .excludeQueries hbefore hafter hexclude⟩
      | ok excluded =>
        cases hinfinite : PatternSet.ofList (PatternSetting.allGiven options.infiniteQueries?) with
        | error fault => exact .inr ⟨_, .infiniteQueries hbefore hafter hexclude hinfinite⟩
        | ok infinite => exact .inl ⟨hbefore, hafter, ⟨excluded, hexclude⟩, ⟨infinite, hinfinite⟩⟩
    · exact .inr ⟨_, .typesSuffix hbefore hafter⟩
  · exact .inr ⟨_, .typesPrefix hbefore⟩

/-- Options that pass all checks make a configuration. -/
theorem Passes.exists_ofOptions {options : Options} (h : Passes options) :
    ∃ config, ofOptions options = .ok config := by
  obtain ⟨excluded, hexcluded⟩ := h.excludeQueries
  obtain ⟨infinite, hinfinite⟩ := h.infiniteQueries
  exact ⟨_, ofOptions_eq_ok_iff.2 ⟨excluded, infinite, checkAffix_of_isAffix h.typesPrefix _,
    checkAffix_of_isAffix h.typesSuffix _, readPatterns_eq_ok_iff.2 hexcluded,
    readPatterns_eq_ok_iff.2 hinfinite, rfl⟩⟩

/-- Options that fail a check fail with the error of the first one. -/
theorem FirstFault.ofOptions_eq {options : Options} {error : Error} (h : FirstFault options error) :
    ofOptions options = .error error := by
  cases h with
  | typesPrefix hfault =>
    rw [ofOptions, checkAffix_of_not_isAffix hfault]
    rfl
  | typesSuffix hbefore hfault =>
    rw [ofOptions, checkAffix_of_isAffix hbefore, checkAffix_of_not_isAffix hfault]
    rfl
  | excludeQueries hbefore hafter hfault =>
    rw [ofOptions, checkAffix_of_isAffix hbefore, checkAffix_of_isAffix hafter,
      readPatterns_eq_error_iff.2 ⟨_, hfault, rfl⟩]
    rfl
  | infiniteQueries hbefore hafter hexclude hfault =>
    rw [ofOptions, checkAffix_of_isAffix hbefore, checkAffix_of_isAffix hafter,
      readPatterns_eq_ok_iff.2 hexclude, readPatterns_eq_error_iff.2 ⟨_, hfault, rfl⟩]
    rfl

/-- There is a configuration exactly if the options pass. -/
theorem exists_ofOptions_iff {options : Options} :
    (∃ config, ofOptions options = .ok config) ↔ Passes options := by
  constructor
  · rintro ⟨config, hconfig⟩
    rcases passes_or_firstFault options with hpasses | ⟨error, hfault⟩
    · exact hpasses
    · exact absurd (hfault.ofOptions_eq.symm.trans hconfig) (by simp)
  · exact Passes.exists_ofOptions

/-- The error is the first fault of the options. -/
theorem ofOptions_eq_error_iff {options : Options} {error : Error} :
    ofOptions options = .error error ↔ FirstFault options error := by
  constructor
  · intro herror
    rcases passes_or_firstFault options with hpasses | ⟨first, hfault⟩
    · obtain ⟨config, hconfig⟩ := hpasses.exists_ofOptions
      exact absurd (hconfig.symm.trans herror) (by simp)
    · obtain rfl : first = error := Except.error.inj (hfault.ofOptions_eq.symm.trans herror)
      exact hfault
  · exact FirstFault.ofOptions_eq

/-! ## What is kept -/

/--
A configuration keeps the patterns of some options that are not empty, in their order.  Each of its
two gates is open if there is any, and no name passes a gate that is shut.
-/
structure Keeps (options : Options) (config : Config) : Prop where
  excluded : config.excludeQueries.patterns =
    (PatternSetting.allGiven options.excludeQueries?).filter (!·.isEmpty)
  infinite : config.infiniteQueries.patterns =
    (PatternSetting.allGiven options.infiniteQueries?).filter (!·.isEmpty)
  exclusionEnabled_iff : config.exclusionEnabled = true ↔
    (PatternSetting.allGiven options.excludeQueries?).filter (!·.isEmpty) ≠ []
  infiniteEnabled_iff : config.infiniteEnabled = true ↔
    (PatternSetting.allGiven options.infiniteQueries?).filter (!·.isEmpty) ≠ []
  excludes_eq_false : config.exclusionEnabled = false → ∀ name, config.excludes name = false
  wantsInfinite_eq_false :
    config.infiniteEnabled = false → ∀ name, config.wantsInfinite name = false

/-- A configuration keeps what its options say. -/
theorem keeps_of_ofOptions {options : Options} {config : Config}
    (h : ofOptions options = .ok config) :
    Keeps options config := by
  obtain ⟨excluded, infinite, -, -, hexcluded, hinfinite, rfl⟩ := ofOptions_eq_ok_iff.1 h
  have hexclude := PatternSet.patterns_of_ofList (readPatterns_eq_ok_iff.1 hexcluded)
  have hinfinite := PatternSet.patterns_of_ofList (readPatterns_eq_ok_iff.1 hinfinite)
  have hgate (set : PatternSet) : (!set.isEmpty) = true ↔ set.patterns ≠ [] := by
    rw [Bool.not_eq_true', ← Bool.not_eq_true, PatternSet.isEmpty_iff]
  have hshut (set : PatternSet) (hset : (!set.isEmpty) = false) (name : String) :
      set.isMatch name = false :=
    PatternSet.isMatch_of_isEmpty (by simpa using hset) name
  exact
    { excluded := hexclude
      infinite := hinfinite
      exclusionEnabled_iff := hexclude ▸ hgate excluded
      infiniteEnabled_iff := hinfinite ▸ hgate infinite
      excludes_eq_false := hshut excluded
      wantsInfinite_eq_false := hshut infinite }

/-! ## Settings -/

/--
Settings make the configuration of the options that hold the last value of each option, and there
are such options only once.  So other settings with the same last values make the same, and a
setting whose option is set again may be left out, whatever its value.  There is a configuration
exactly if these options pass all checks, and otherwise the error is that of the first check that
fails.  A configuration keeps the patterns of these options.
-/
theorem configuration_of_last_values (settings : List Setting) :
    ∃ options : Options,
      (∀ other : Options, other.HoldsLast settings ↔ other = options) ∧
      ofOptions (Options.ofSettings settings) = ofOptions options ∧
      (∀ others : List Setting, options.HoldsLast others →
        ofOptions (Options.ofSettings others) = ofOptions (Options.ofSettings settings)) ∧
      (∀ (front : List Setting) (setting : Setting) (middle : List Setting) (later : Setting)
        (back : List Setting), settings = front ++ setting :: (middle ++ later :: back) →
          later.name = setting.name →
          ofOptions (Options.ofSettings (front ++ (middle ++ later :: back))) =
            ofOptions (Options.ofSettings settings)) ∧
      ((∃ config, ofOptions (Options.ofSettings settings) = .ok config) ↔ Passes options) ∧
      (∀ error, ofOptions (Options.ofSettings settings) = .error error ↔ FirstFault options error) ∧
      ∀ config, ofOptions (Options.ofSettings settings) = .ok config → Keeps options config := by
  have hholds := Options.holdsLast_ofSettings settings
  refine ⟨Options.ofSettings settings, ?_, rfl, ?_, ?_, exists_ofOptions_iff,
    fun error => ofOptions_eq_error_iff, fun config => keeps_of_ofOptions⟩
  · intro other
    constructor
    · intro hother
      exact hother.eq.symm
    · rintro rfl
      exact hholds
  · intro others hothers
    rw [hothers.eq]
  · rintro front setting middle later back rfl hname
    have hsame : (Options.ofSettings (front ++ setting :: (middle ++ later :: back))).HoldsLast
        (front ++ (middle ++ later :: back)) := by
      intro option
      rw [← Options.lastFor?_overwritten hname]
      exact hholds option
    rw [hsame.eq]

/-- A prefix that is none is set first, and patterns that are none in between. -/
def overwrittenSettings : List Setting :=
  [.typesPrefix "a-b", .excludeQueries (some (.single "[")), .typesPrefix "My",
    .excludeQueries (some (.multiple ["", "get*"])), .infiniteQueries (some (.single ""))]

/-- The values that are overwritten make no difference, and empty patterns open no gate. -/
theorem configuration_of_overwrittenSettings :
    ∃ config, ofOptions (Options.ofSettings overwrittenSettings) = .ok config ∧
      config.excludeQueries.patterns = ["get*"] ∧ config.infiniteEnabled = false ∧
      config.wantsInfinite "" = false ∧
      ofOptions (Options.ofSettings overwrittenSettings.tail) = .ok config := by
  obtain ⟨options, hlast, -, -, hoverwritten, hpasses, -, hkeeps⟩ :=
    configuration_of_last_values overwrittenSettings
  obtain rfl : Options.ofSettings overwrittenSettings = options := ((hlast options).2 rfl).eq
  have hgiven : PatternSet.readAll ["", "get*"] =
      .ok [⟨"get*", [.literal 'g', .literal 'e', .literal 't', .anyBytes]⟩] := by
    cbv
  have hexclude : ∃ set, PatternSet.ofList ["", "get*"] = .ok set := by
    refine ⟨⟨_, PatternSet.parsed_of_readAll hgiven⟩, PatternSet.ofList_eq_ok_iff.2 ⟨hgiven, ?_⟩⟩
    exact List.forall_mem_singleton.2 (by decide)
  have hbefore : IsAffix "My" := by simp [IsAffix]
  have hafter : IsAffix "" := by simp [IsAffix]
  obtain ⟨config, hconfig⟩ := hpasses.2 ⟨hbefore, hafter, hexclude, ⟨∅, rfl⟩⟩
  have hkept := hkeeps config hconfig
  have hgate : config.infiniteEnabled = false := by
    rw [← Bool.not_eq_true, hkept.infiniteEnabled_iff]
    decide
  have htail := hoverwritten [] (.typesPrefix "a-b") [.excludeQueries (some (.single "["))]
    (.typesPrefix "My") _ rfl rfl
  exact ⟨config, hconfig, hkept.excluded, hgate, hkept.wantsInfinite_eq_false hgate "",
    htail.trans hconfig⟩

end Config

end QueryHooks
