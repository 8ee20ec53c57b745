import QueryHooks.Proofs.Config.Settings

/-!
# Rejected patterns

A pattern is rejected because it cannot be read, or because it nests too deep.  Patterns fail to
make a set exactly if one of them is rejected on its own.  The error is about the first that cannot
be read; only where all can be read it is about one that nests too deep, and then it names all of
them, since it is not known which one it was.  So the pattern that is named need not be the first
that is rejected.

Main results:

- Definitions `PatternSet.isUnreadable` and `PatternSet.rejects`: how a pattern fails on its own.
- Definition `PatternSet.blamed`: the text that the error names.
- Theorem `PatternSet.exists_ofList_eq_error_iff`: when patterns make no set.
- Theorem `PatternSet.blamed_eq_iff`: when the first rejected pattern is named.
- Theorem `first_rejected_pattern_is_named_iff`: all this for sets and for configurations.
- Theorem `PatternSet.parse_nested`: patterns that nest as deep as one likes.
- Theorem `nested_pattern_is_not_named`: a rejected pattern that is not named.
-/

namespace QueryHooks

namespace PatternSet

/-! ## Patterns on their own -/

/-- Whether a text is no glob. -/
def isUnreadable (text : String) : Bool :=
  !(Glob.parse text).isOk

/-- Whether a text makes no set as the only pattern. -/
def rejects (text : String) : Bool :=
  !(ofList [text]).isOk

/-- A text cannot be read if reading it ends with a fault. -/
theorem isUnreadable_iff {text : String} :
    isUnreadable text = true ↔ ∃ fault, Glob.parse text = .error fault := by
  rw [isUnreadable]
  cases Glob.parse text <;> simp [Except.isOk, Except.toBool]

/-- A text can be read if it is some pattern. -/
theorem isUnreadable_eq_false_iff {text : String} :
    isUnreadable text = false ↔ ∃ glob, Glob.parse text = .ok glob := by
  rw [isUnreadable]
  cases Glob.parse text <;> simp [Except.isOk, Except.toBool]

/-- The empty text is passed over, so it is not rejected. -/
theorem rejects_empty : rejects "" = false :=
  rfl

theorem isUnreadable_empty : isUnreadable "" = false :=
  isUnreadable_eq_false_iff.2 ⟨⟨"", []⟩, by simp [Glob.parse, Glob.readParts, Glob.Reading.inGroup]⟩

/-- What cannot be read is rejected. -/
theorem rejects_of_isUnreadable {text : String} (h : isUnreadable text = true) :
    rejects text = true := by
  have hne : text ≠ "" := by
    rintro rfl
    simp [isUnreadable_empty] at h
  obtain ⟨fault, hfault⟩ := isUnreadable_iff.1 h
  have hread : readAll [text] = .error (.invalid text fault) := by
    simp [readAll, hne, hfault]
  rw [rejects, ofList_eq_error_iff.2 (.inl hread)]
  rfl

/-- A glob is rejected exactly if it nests too deep. -/
theorem rejects_iff_of_parse {text : String} {glob : Glob} (h : Glob.parse text = .ok glob)
    (hne : text ≠ "") :
    rejects text = true ↔ Glob.maxDepth < glob.depth := by
  have hread : readAll [text] = .ok [glob] := by
    simp [readAll, hne, h, Except.map]
  by_cases hdeep : Glob.maxDepth < glob.depth
  · have herror := ofList_eq_error_iff.2
      (.inr ⟨[glob], hread, ⟨glob, List.mem_singleton_self _, hdeep⟩, rfl⟩)
    exact iff_of_true (by rw [rejects, herror]; rfl) hdeep
  · have hset : ofList [text] = .ok ⟨[glob], parsed_of_readAll hread⟩ :=
      ofList_eq_ok_iff.2 ⟨hread, List.forall_mem_singleton.2 (not_lt.1 hdeep)⟩
    exact iff_of_false (by rw [rejects, hset]; simp [Except.isOk, Except.toBool]) hdeep

/-- The empty text is not rejected, since it is not kept. -/
theorem ne_empty_of_rejects {text : String} (h : rejects text = true) : text ≠ "" := by
  rintro rfl
  simp [rejects_empty] at h

/-- A rejected text is among the texts that are not passed over. -/
theorem mem_filter_of_rejects {texts : List String} {text : String} (hmem : text ∈ texts)
    (h : rejects text = true) : text ∈ texts.filter (!·.isEmpty) :=
  List.mem_filter.2 ⟨hmem, by simpa using ne_empty_of_rejects h⟩

/-! ## Patterns side by side -/

/-- Reading fails at the first text that is no glob. -/
theorem readAll_eq_error_iff {texts : List String} {error : Error} :
    readAll texts = .error error ↔ ∃ text fault, texts.find? isUnreadable = some text ∧
      Glob.parse text = .error fault ∧ error = .invalid text fault := by
  induction texts with
  | nil => simp [readAll]
  | cons text texts ih =>
    rw [readAll]
    by_cases hempty : text = ""
    · subst hempty
      simp [List.find?_cons_of_neg, isUnreadable_empty, ih]
    · rw [if_neg (by simpa using hempty)]
      cases hparse : Glob.parse text with
      | error fault =>
        have hbad : isUnreadable text = true := isUnreadable_iff.2 ⟨fault, hparse⟩
        simp [hbad, hparse, eq_comm]
      | ok glob =>
        have hgood : isUnreadable text = false := isUnreadable_eq_false_iff.2 ⟨glob, hparse⟩
        rw [List.find?_cons_of_neg (by simp [hgood]), ← ih]
        cases readAll texts <;> simp [Except.map]

/-- Texts that are all globs are read. -/
theorem exists_readAll_of_find?_eq_none {texts : List String}
    (h : texts.find? isUnreadable = none) :
    ∃ globs, readAll texts = .ok globs := by
  cases hread : readAll texts with
  | ok globs => exact ⟨globs, rfl⟩
  | error error =>
    obtain ⟨text, fault, hfind, -⟩ := readAll_eq_error_iff.1 hread
    exact absurd (h.symm.trans hfind) (by simp)

/-- If all texts were read, none is unreadable. -/
theorem find?_isUnreadable_of_readAll {texts : List String} {globs : List Glob}
    (h : readAll texts = .ok globs) : texts.find? isUnreadable = none := by
  cases hfind : texts.find? isUnreadable with
  | none => rfl
  | some text =>
    obtain ⟨fault, hfault⟩ := isUnreadable_iff.1 (List.find?_some hfind)
    have herror := readAll_eq_error_iff.2 ⟨text, fault, hfind, hfault, rfl⟩
    exact absurd (h.symm.trans herror) (by simp)

/-- Among texts that are read, those that are rejected are the globs that nest too deep. -/
theorem exists_deep_iff_of_readAll {texts : List String} {globs : List Glob}
    (h : readAll texts = .ok globs) :
    (∃ glob ∈ globs, Glob.maxDepth < glob.depth) ↔ ∃ text ∈ texts, rejects text = true := by
  have hsources := sources_of_readAll h
  constructor
  · rintro ⟨glob, hglob, hdeep⟩
    have hsource : glob.source ∈ texts.filter (!·.isEmpty) := hsources ▸ List.mem_map_of_mem hglob
    obtain ⟨htext, hne⟩ := List.mem_filter.1 hsource
    have hparse := parsed_of_readAll h glob hglob
    exact ⟨glob.source, htext, (rejects_iff_of_parse hparse (by simpa using hne)).2 hdeep⟩
  · rintro ⟨text, htext, hrejected⟩
    have hkept : text ∈ globs.map Glob.source := hsources ▸ mem_filter_of_rejects htext hrejected
    obtain ⟨glob, hglob, rfl⟩ := List.mem_map.1 hkept
    have hparse := parsed_of_readAll h glob hglob
    exact ⟨glob, hglob, (rejects_iff_of_parse hparse (ne_empty_of_rejects hrejected)).1 hrejected⟩

/-- Patterns make no set exactly if one of them is rejected on its own. -/
theorem exists_ofList_eq_error_iff {texts : List String} :
    (∃ error, ofList texts = .error error) ↔ ∃ text ∈ texts, rejects text = true := by
  cases hfind : texts.find? isUnreadable with
  | some text =>
    obtain ⟨fault, hfault⟩ := isUnreadable_iff.1 (List.find?_some hfind)
    have hread := readAll_eq_error_iff.2 ⟨text, fault, hfind, hfault, rfl⟩
    exact iff_of_true ⟨_, ofList_eq_error_iff.2 (.inl hread)⟩
      ⟨text, List.mem_of_find?_eq_some hfind, rejects_of_isUnreadable (List.find?_some hfind)⟩
  | none =>
    obtain ⟨globs, hread⟩ := exists_readAll_of_find?_eq_none hfind
    rw [← exists_deep_iff_of_readAll hread]
    simp [ofList_eq_error_iff, hread]

/-! ## The pattern that is named -/

/-- The first of some patterns that cannot be read, or all of them if there is none. -/
def blamed (texts : List String) : String :=
  (texts.find? isUnreadable).getD (", ".intercalate (texts.filter (!·.isEmpty)))

/-- The pattern that an error names is the one that is blamed. -/
theorem pattern_of_ofList {texts : List String} {error : Error} (h : ofList texts = .error error) :
    error.pattern = blamed texts := by
  rcases ofList_eq_error_iff.1 h with hread | ⟨globs, hread, -, rfl⟩
  · obtain ⟨text, fault, hfind, -, rfl⟩ := readAll_eq_error_iff.1 hread
    rw [blamed, hfind]
    rfl
  · rw [blamed, find?_isUnreadable_of_readAll hread, ← sources_of_readAll hread]
    rfl

/-- Texts between commas make a text that is longer than each of them, unless there is only one. -/
theorem length_intercalate (texts : List String) :
    (", ".intercalate texts).length = (texts.map String.length).sum + 2 * (texts.length - 1) := by
  induction texts with
  | nil => rfl
  | cons text texts ih =>
    cases texts with
    | nil => simp
    | cons next texts =>
      have hcomma : ", ".length = 2 := rfl
      rw [String.intercalate_cons_cons, String.length_append, String.length_append, ih]
      simp only [List.map_cons, List.sum_cons, List.length_cons]
      omega

/-- Texts that make one of themselves with commas between them are that one alone. -/
theorem eq_singleton_of_intercalate_eq {texts : List String} {text : String} (hmem : text ∈ texts)
    (h : ", ".intercalate texts = text) : texts = [text] := by
  match texts, hmem with
  | [_], hmem => rw [List.mem_singleton.1 hmem]
  | first :: second :: later, hmem =>
    have hlength := length_intercalate (first :: second :: later)
    have hle : text.length ≤ ((first :: second :: later).map String.length).sum :=
      List.le_sum_of_mem (List.mem_map_of_mem hmem)
    rw [h] at hlength
    simp only [List.length_cons] at hlength
    omega

/--
The first rejected pattern is named exactly if it cannot be read, or if no other pattern is given
but empty ones.
-/
theorem blamed_eq_iff {texts : List String} {culprit : String}
    (h : texts.find? rejects = some culprit) :
    blamed texts = culprit ↔
      isUnreadable culprit = true ∨ texts.filter (!·.isEmpty) = [culprit] := by
  have hmem : culprit ∈ texts.filter (!·.isEmpty) :=
    mem_filter_of_rejects (List.mem_of_find?_eq_some h) (List.find?_some h)
  rw [blamed]
  cases hfind : texts.find? isUnreadable with
  | none =>
    have hread : isUnreadable culprit = false := by
      simpa using List.find?_eq_none.1 hfind culprit (List.mem_of_find?_eq_some h)
    rw [Option.getD_none]
    constructor
    · exact fun hall => .inr (eq_singleton_of_intercalate_eq hmem hall)
    · rintro (hbad | hall)
      · simp [hread] at hbad
      · rw [hall, String.intercalate_singleton]
  | some text =>
    have hbad : isUnreadable text = true := List.find?_some hfind
    rw [Option.getD_some]
    constructor
    · rintro rfl
      exact .inl hbad
    · rintro (hculprit | hall)
      · -- What stands in front of the culprit is not rejected, so it can be read.
        obtain ⟨-, front, back, rfl, hfront⟩ := List.find?_eq_some_iff_append.1 h
        have hfirst : (front ++ culprit :: back).find? isUnreadable = some culprit := by
          refine List.find?_eq_some_iff_append.2
            ⟨hculprit, front, back, rfl, fun other hother => ?_⟩
          have hgood := hfront other hother
          rw [Bool.not_eq_true'] at hgood ⊢
          rw [← Bool.not_eq_true] at hgood ⊢
          exact mt rejects_of_isUnreadable hgood
        exact Option.some.inj (hfind.symm.trans hfirst)
      · have hkept : text ∈ texts.filter (!·.isEmpty) :=
          mem_filter_of_rejects (List.mem_of_find?_eq_some hfind) (rejects_of_isUnreadable hbad)
        rw [hall] at hkept
        exact List.mem_singleton.1 hkept

/-- What a text that is named as the rejected one has to do with the patterns that were given. -/
structure Blames (texts : List String) (named : String) : Prop where
  /-- It is the first pattern that cannot be read, or all patterns together. -/
  eq_blamed : named = blamed texts
  /-- It is the first rejected pattern only if that cannot be read or is alone. -/
  eq_culprit_iff : ∃ culprit, texts.find? rejects = some culprit ∧
    (named = culprit ↔ isUnreadable culprit = true ∨ texts.filter (!·.isEmpty) = [culprit])

/-- A set that is rejected blames some texts for it. -/
theorem blames_of_ofList {texts : List String} {error : Error} (h : ofList texts = .error error) :
    Blames texts error.pattern := by
  refine ⟨pattern_of_ofList h, ?_⟩
  cases hfind : texts.find? rejects with
  | none =>
    obtain ⟨text, htext, hrejected⟩ := exists_ofList_eq_error_iff.1 ⟨error, h⟩
    exact absurd hrejected (List.find?_eq_none.1 hfind text htext)
  | some culprit => exact ⟨culprit, rfl, pattern_of_ofList h ▸ blamed_eq_iff hfind⟩

/-! ## Patterns that nest -/

/-- The letter `a` between some braces. -/
def nestedChars : Nat → List Char
  | 0 => ['a']
  | levels + 1 => '\x7b' :: (nestedChars levels ++ ['\x7d'])

/-- The pattern of the letter `a` between some braces. -/
def nested (levels : Nat) : String :=
  String.ofList (nestedChars levels)

/-- What the pattern is read as: a group in a group, with the letter in the innermost. -/
def nestedPart : Nat → Glob.Part
  | 0 => .literal 'a'
  | levels + 1 => .group [[nestedPart levels]]

/-- The braces add their part, whatever stands around them. -/
theorem readParts_nestedChars (levels : Nat) (before? : Option Char) (reading : Glob.Reading)
    (rest : List Char) :
    ∃ after?, Glob.readParts before? reading (nestedChars levels ++ rest) =
      Glob.readParts after? (reading.push (nestedPart levels)) rest := by
  induction levels generalizing before? reading rest with
  | zero =>
    refine ⟨some 'a', ?_⟩
    simp [nestedChars, nestedPart, Glob.readParts]
  | succ levels ih =>
    obtain ⟨after?, hinner⟩ := ih (some '\x7b') reading.openGroup ('\x7d' :: rest)
    refine ⟨some '\x7d', ?_⟩
    rw [nestedChars, List.cons_append, List.append_assoc, List.singleton_append, Glob.readParts,
      hinner, Glob.readParts]
    rfl

/-- Braces may be nested as deep as one likes. -/
theorem parse_nested (levels : Nat) :
    Glob.parse (nested levels) = .ok ⟨nested levels, [nestedPart levels]⟩ := by
  obtain ⟨after?, hread⟩ := readParts_nestedChars levels none {} []
  rw [List.append_nil] at hread
  rw [Glob.parse, nested, String.toList_ofList, hread, Glob.readParts]
  simp [Glob.Reading.inGroup, Glob.Reading.push]

theorem vanishes_nestedPart (levels : Nat) : (nestedPart levels).vanishes = false := by
  induction levels with
  | zero => rfl
  | succ levels ih =>
    simp [nestedPart, Glob.Part.vanishes, Glob.Part.allBranchesVanish, Glob.Part.allVanish, ih]

theorem itemCount_nestedPart (levels : Nat) : (nestedPart levels).itemCount = 1 := by
  cases levels with
  | zero => rfl
  | succ levels =>
    have hvanishes := vanishes_nestedPart (levels + 1)
    rw [nestedPart] at hvanishes ⊢
    simp [Glob.Part.itemCount, hvanishes]

/-- Each pair of braces is one level. -/
theorem depth_nestedPart (levels : Nat) : (nestedPart levels).depth = levels := by
  induction levels with
  | zero => rfl
  | succ levels ih =>
    have hbranch : Glob.Part.allVanish [nestedPart levels] = false := by
      simp [Glob.Part.allVanish, vanishes_nestedPart]
    have hcount : Glob.Part.itemCounts [nestedPart levels] = 1 := by
      simp [Glob.Part.itemCounts, itemCount_nestedPart]
    simp [nestedPart, Glob.Part.depth, Glob.Part.branchesDepth, Glob.Part.partsDepth, hbranch,
      hcount, ih]
    omega

/-- Nested braces are not nothing. -/
theorem nested_ne_empty (levels : Nat) : nested levels ≠ "" := by
  cases levels <;> simp [nested, nestedChars]

/-- Braces are rejected exactly if there are too many of them. -/
theorem rejects_nested_iff (levels : Nat) :
    rejects (nested levels) = true ↔ Glob.maxDepth ≤ levels := by
  rw [rejects_iff_of_parse (parse_nested levels) (nested_ne_empty levels), Glob.depth]
  simp [Glob.Part.partsDepth, depth_nestedPart]
  omega

/-- The pattern `get*` is read, and it does not nest. -/
theorem parse_getAny :
    Glob.parse "get*" = .ok ⟨"get*", [.literal 'g', .literal 'e', .literal 't', .anyBytes]⟩ := by
  cbv

/-- A pattern with a star is accepted by itself. -/
theorem rejects_getAny : rejects "get*" = false := by
  rw [← Bool.not_eq_true, rejects_iff_of_parse parse_getAny (by decide)]
  decide

/-- A bracket alone is no pattern. -/
theorem isUnreadable_bracket : isUnreadable "[" = true :=
  isUnreadable_iff.2 ⟨.unclosedClass, by cbv⟩

/-- Three hundred braces are too many. -/
theorem rejects_nested_300 : rejects (nested 300) = true :=
  (rejects_nested_iff 300).2 (by decide)

end PatternSet

/-! ## Options -/

/-- The patterns that are given for an option, if it is one that takes patterns. -/
def Options.givenFor (options : Options) : OptionName → List String
  | .excludeQueries => PatternSetting.allGiven options.excludeQueries?
  | .infiniteQueries => PatternSetting.allGiven options.infiniteQueries?
  | _ => []

/-- An error about patterns of some options comes from the patterns of the option that it names. -/
theorem Config.ofList_givenFor_of_ofOptions {options : Options} {option : OptionName}
    {fault : PatternSet.Error} (h : ofOptions options = .error (.invalidPattern option fault)) :
    PatternSet.ofList (options.givenFor option) = .error fault := by
  cases ofOptions_eq_error_iff.1 h with
  | excludeQueries _ _ hfault => exact hfault
  | infiniteQueries _ _ _ hfault => exact hfault

open PatternSet in
/--
Patterns make no set exactly if one of them that is not empty is rejected on its own, and so it is
with the patterns of an option.  The error names the first rejected pattern exactly if that cannot
be read, or if there is no other that is not empty.  Otherwise it names the first that cannot be
read, or if there is none, all of them.
-/
theorem first_rejected_pattern_is_named_iff (texts : List String) :
    ((∃ error, ofList texts = .error error) ↔ ∃ text ∈ texts, text ≠ "" ∧ rejects text = true) ∧
    (∀ error, ofList texts = .error error → Blames texts error.pattern) ∧
    (∀ (option : OptionName) (setting? : Option PatternSetting),
      PatternSetting.allGiven setting? = texts →
      ((∃ error, Config.readPatterns option setting? = .error error) ↔
        ∃ text ∈ texts, text ≠ "" ∧ rejects text = true) ∧
      ∀ error, Config.readPatterns option setting? = .error error →
        ∃ fault, error = .invalidPattern option fault ∧ Blames texts fault.pattern) ∧
    ∀ (options : Options) (option : OptionName) (fault : PatternSet.Error),
      Config.ofOptions options = .error (.invalidPattern option fault) →
        options.givenFor option = texts → Blames texts fault.pattern := by
  have hfails : (∃ error, ofList texts = .error error) ↔
      ∃ text ∈ texts, text ≠ "" ∧ rejects text = true := by
    rw [exists_ofList_eq_error_iff]
    refine exists_congr fun text => and_congr_right fun _ => ?_
    exact ⟨fun hrejected => ⟨ne_empty_of_rejects hrejected, hrejected⟩, And.right⟩
  refine ⟨hfails, fun error => blames_of_ofList, ?_, ?_⟩
  · rintro option setting? rfl
    constructor
    · rw [← hfails]
      constructor
      · rintro ⟨error, herror⟩
        obtain ⟨fault, hfault, -⟩ := Config.readPatterns_eq_error_iff.1 herror
        exact ⟨fault, hfault⟩
      · rintro ⟨fault, hfault⟩
        exact ⟨_, Config.readPatterns_eq_error_iff.2 ⟨fault, hfault, rfl⟩⟩
    · intro error herror
      obtain ⟨fault, hfault, rfl⟩ := Config.readPatterns_eq_error_iff.1 herror
      exact ⟨fault, rfl, blames_of_ofList hfault⟩
  · rintro options option fault herror rfl
    exact blames_of_ofList (Config.ofList_givenFor_of_ofOptions herror)

open PatternSet in
/-- The bracket is named, although the braces in front of it are rejected before. -/
theorem bracket_is_named_behind_nested :
    let texts := [nested 300, "["]
    let options : Options := { excludeQueries? := some (.multiple texts) }
    texts.find? rejects = some (nested 300) ∧
    (∃ error, ofList texts = .error error ∧ error.pattern = "[") ∧
    (∃ error, Config.readPatterns .excludeQueries options.excludeQueries? = .error error) ∧
    ∃ fault, Config.ofOptions options = .error (.invalidPattern .excludeQueries fault) ∧
      fault.pattern = "[" := by
  intro texts options
  obtain ⟨hfails, hnamed, hoption, hmaking⟩ := first_rejected_pattern_is_named_iff texts
  have hmem : ∃ text ∈ texts, text ≠ "" ∧ rejects text = true :=
    ⟨nested 300, List.mem_cons_self, nested_ne_empty 300, rejects_nested_300⟩
  have hblamed : blamed texts = "[" := by
    have hread : isUnreadable (nested 300) = false :=
      isUnreadable_eq_false_iff.2 ⟨_, parse_nested 300⟩
    simp [blamed, texts, hread, isUnreadable_bracket]
  obtain ⟨error, herror⟩ := hfails.2 hmem
  obtain ⟨hreads, -⟩ := hoption .excludeQueries options.excludeQueries? rfl
  have hoptions : Config.ofOptions options = .error (.invalidPattern .excludeQueries error) := by
    have hempty : Config.IsAffix "" := by simp [Config.IsAffix]
    exact Config.ofOptions_eq_error_iff.2 (.excludeQueries hempty hempty herror)
  exact ⟨List.find?_cons_of_pos rejects_nested_300,
    ⟨error, herror, (hnamed error herror).eq_blamed.trans hblamed⟩, hreads.2 hmem,
    error, hoptions, (hmaking options .excludeQueries error hoptions rfl).eq_blamed.trans hblamed⟩

open PatternSet in
/-- Only the braces are rejected, but the pattern beside them is named with them. -/
theorem nested_pattern_is_not_named :
    let texts := ["get*", nested 300]
    texts.find? rejects = some (nested 300) ∧
      ∃ error, ofList texts = .error error ∧ error.pattern = "get*, " ++ nested 300 ∧
        error.pattern ≠ nested 300 := by
  intro texts
  have hfind : texts.find? rejects = some (nested 300) := by
    rw [List.find?_cons_of_neg (by simp [rejects_getAny]),
      List.find?_cons_of_pos rejects_nested_300]
  obtain ⟨error, herror⟩ := exists_ofList_eq_error_iff.2
    ⟨nested 300, List.mem_of_find?_eq_some hfind, rejects_nested_300⟩
  have hgood (text : String) (htext : text ∈ texts) : isUnreadable text = false := by
    refine isUnreadable_eq_false_iff.2 ?_
    rcases List.mem_cons.1 htext with rfl | htext
    · exact ⟨_, parse_getAny⟩
    · rw [List.mem_singleton.1 htext]
      exact ⟨_, parse_nested 300⟩
  have hkept : texts.filter (!·.isEmpty) = texts := by
    refine List.filter_eq_self.2 fun text htext => ?_
    rcases List.mem_cons.1 htext with rfl | htext
    · rfl
    · rw [List.mem_singleton.1 htext]
      simpa using nested_ne_empty 300
  have hnamed : error.pattern = ", ".intercalate texts := by
    have hnone : texts.find? isUnreadable = none :=
      List.find?_eq_none.2 fun text htext => by simp [hgood text htext]
    rw [pattern_of_ofList herror, blamed, hnone, hkept]
    rfl
  refine ⟨hfind, error, herror, hnamed, fun heq => ?_⟩
  have hone := eq_singleton_of_intercalate_eq (List.mem_of_find?_eq_some hfind)
    (hnamed.symm.trans heq)
  exact absurd (congrArg List.length hone) (by decide)

end QueryHooks
