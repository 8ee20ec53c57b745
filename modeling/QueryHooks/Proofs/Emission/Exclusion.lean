import QueryHooks.Proofs.Config.Making
import QueryHooks.Proofs.Emission.Monotonicity
import QueryHooks.Proofs.Glob.PlainReading

/-!
# Exclusion by plain patterns

Plain patterns always make a set, and a set of them matches the names that a pattern denotes which
is not empty.  So they exclude exactly the queries with these names.

Main results:

- Definition `PlainGlob.SomeDenotes`: some pattern denotes a name, the empty ones aside.
- Theorem `PatternSet.exists_of_plain`: plain patterns make a set, which matches these names.
- Theorem `Config.ofOptions_excluding`: what other excluded queries make of a configuration.
- Theorem `Config.plain_patterns_exclude_what_they_denote`: which names match the patterns, and
  which operations get hooks.
-/

namespace QueryHooks

open PlainGlob (isNameChar)

/-! ## Sets of plain patterns -/

/-- Some pattern denotes a name, the empty ones aside. -/
def PlainGlob.SomeDenotes (patterns : List PlainGlob) (name : String) : Prop :=
  ∃ pattern ∈ patterns, pattern.pieces ≠ [] ∧ name.toList ∈ pattern.language

/-- The text of a plain pattern is empty where it has no pieces. -/
theorem PlainGlob.isEmpty_text (pattern : PlainGlob) :
    pattern.text.isEmpty = pattern.pieces.isEmpty := by
  rw [Bool.eq_iff_iff, String.isEmpty_iff, List.isEmpty_iff, text, String.ofList_eq_empty_iff,
    List.flatMap_eq_nil_iff]
  constructor
  · intro h
    refine List.eq_nil_iff_forall_not_mem.2 fun piece hpiece => ?_
    obtain ⟨c, rest, htext, -⟩ := (pattern.isPlain piece hpiece).exists_text_eq
    exact absurd (h piece hpiece) (htext ▸ List.cons_ne_nil c rest)
  · rintro h piece hpiece
    exact absurd (h ▸ hpiece) List.not_mem_nil

/-- Which names plain patterns denote can be found out by matching. -/
theorem PlainGlob.someDenotes_iff {patterns : List PlainGlob} {name : String}
    (h : ∀ c ∈ name.toList, isNameChar c = true) :
    SomeDenotes patterns name ↔
      patterns.any (fun pattern => !pattern.pieces.isEmpty && pattern.glob.isMatch name) =
        true := by
  have hascii : ∀ c ∈ name.toList, IsAscii c := fun c hc => isAscii_of_isNameChar (h c hc)
  simp only [SomeDenotes, List.any_eq_true, Bool.and_eq_true, Bool.not_eq_true',
    List.isEmpty_eq_false_iff, isMatch_iff _ hascii]

namespace PatternSet

/-- The globs of plain patterns, without the empty ones. -/
def plainGlobs (patterns : List PlainGlob) : List Glob :=
  (patterns.filter (!·.pieces.isEmpty)).map PlainGlob.glob

/-- Plain patterns are all read. -/
theorem readAll_plain (patterns : List PlainGlob) :
    readAll (patterns.map PlainGlob.text) = .ok (plainGlobs patterns) := by
  induction patterns with
  | nil => rfl
  | cons pattern patterns ih =>
    rw [List.map_cons, readAll, pattern.isEmpty_text]
    cases hempty : pattern.pieces.isEmpty with
    | true => simp [plainGlobs, hempty, ih]
    | false => simp [plainGlobs, hempty, ih, pattern.parse_text, Except.map]

/-- Texts that are plain patterns, apart from empty ones, make a set of these patterns. -/
theorem exists_of_plain {texts : List String} {patterns : List PlainGlob}
    (h : readAll texts = readAll (patterns.map PlainGlob.text)) :
    ∃ set, ofList texts = .ok set ∧ ∀ name : String, (∀ c ∈ name.toList, isNameChar c = true) →
      (set.isMatch name = true ↔ PlainGlob.SomeDenotes patterns name) := by
  have hdepth : ∀ glob ∈ plainGlobs patterns, glob.depth ≤ Glob.maxDepth := by
    simp only [plainGlobs, List.forall_mem_map]
    exact fun pattern _ => pattern.depth_glob_le
  have hread : readAll texts = .ok (plainGlobs patterns) := h.trans (readAll_plain patterns)
  refine ⟨⟨plainGlobs patterns, parsed_of_readAll hread⟩, ofList_eq_ok_iff.2 ⟨hread, hdepth⟩, ?_⟩
  intro name hname
  have hmatch : (plainGlobs patterns).any (·.isMatch name) =
      patterns.any fun pattern => !pattern.pieces.isEmpty && pattern.glob.isMatch name := by
    rw [plainGlobs, List.any_map, List.any_filter]
    rfl
  rw [PlainGlob.someDenotes_iff hname, ← hmatch]
  rfl

end PatternSet

/-! ## Configurations -/

namespace Config

/-- Options that make a configuration make one with other excluded queries too. -/
theorem ofOptions_excluding {options : Options} {config : Config}
    (h : ofOptions options = .ok config)
    {setting : PatternSetting} {set : PatternSet}
    (hset : PatternSet.ofList setting.patterns = .ok set) :
    ofOptions { options with excludeQueries? := some setting } = .ok (config.excluding set) := by
  obtain ⟨_, infinite, hbefore, hafter, -, hinfinite, rfl⟩ := ofOptions_eq_ok_iff.1 h
  have hpatterns : readPatterns .excludeQueries (some setting) = .ok set := by
    simp [readPatterns, hset]
  exact ofOptions_eq_ok_iff.2 ⟨set, infinite, hbefore, hafter, hpatterns, hinfinite, rfl⟩

open scoped Classical in
/--
Plain patterns make a set, and the names that match it are those that one of the patterns denotes
which is not empty.  With any options that make a configuration otherwise, the patterns may be the
ones for excluded queries, and then the operations with hooks are in order the queries that no
pattern denotes but an empty one.
-/
theorem plain_patterns_exclude_what_they_denote (patterns : List PlainGlob) :
    (∃ set, PatternSet.ofList (patterns.map PlainGlob.text) = .ok set ∧
      ∀ name : String, (∀ c ∈ name.toList, isNameChar c = true) →
        (set.isMatch name = true ↔ PlainGlob.SomeDenotes patterns name)) ∧
    ∀ (options : Options) (config : Config), ofOptions options = .ok config →
      ∀ setting : PatternSetting, setting.given = patterns.map PlainGlob.text →
        ∃ excluding, ofOptions { options with excludeQueries? := some setting } = .ok excluding ∧
          ∀ operations : List Operation,
            (∀ operation ∈ operations, ∀ c ∈ operation.name.toList, isNameChar c = true) →
              excluding.eligible operations = operations.filter fun operation =>
                operation.kind = .query ∧ ¬PlainGlob.SomeDenotes patterns operation.name := by
  refine ⟨PatternSet.exists_of_plain rfl, ?_⟩
  intro options config hconfig setting hsetting
  obtain ⟨set, hset, hmatch⟩ :=
    PatternSet.exists_of_plain (hsetting ▸ PatternSet.readAll_patterns setting)
  refine ⟨config.excluding set, ofOptions_excluding hconfig hset, ?_⟩
  intro operations hnames
  rw [eligible_eq_selected, selected]
  refine List.filter_congr fun operation hoperation => ?_
  rw [Bool.eq_iff_iff, selects, excludes, excluding, Bool.and_eq_true, Bool.not_eq_true',
    beq_iff_eq, decide_eq_true_iff, ← Bool.not_eq_true, hmatch operation.name
    (hnames operation hoperation)]

/-- The patterns `get*` and `{list,[a-c]?}s` with an empty one between them. -/
def somePatterns : List PlainGlob :=
  [⟨[.single (.char 'g'), .single (.char 'e'), .single (.char 't'), .single .anyText], by decide⟩,
    ⟨[], by decide⟩,
    ⟨[.choice [[.char 'l', .char 'i', .char 's', .char 't'],
      [.charClass false [.range 'a' 'c'], .anyOne]],
      .single (.char 's')], by decide⟩]

/-- A query without variables. -/
def plainQuery (name : String) : Operation where
  kind := .query
  name := name
  resultType := "R"
  variablesType := "V"
  declared := []
  distinct := List.nodup_nil

/-- One query is left of four. -/
theorem eligible_of_somePatterns :
    let texts := ["get*", "", "\x7blist,[a-c]?\x7ds"]
    let operations := ["getUser", "lists", "list", "bxs"].map plainQuery
    (∃ set, PatternSet.ofList texts = .ok set ∧ set.isMatch "getUser" = true) ∧
    ofOptions {} = .ok {} ∧
      ∃ excluding, ofOptions { excludeQueries? := some (.multiple texts) } = .ok excluding ∧
        excluding.eligible operations = [plainQuery "list"] := by
  intro texts operations
  have htexts : texts = somePatterns.map PlainGlob.text := by decide
  have hconfig : ofOptions {} = .ok {} := rfl
  obtain ⟨⟨set, hset, hmatch⟩, hoptions⟩ := plain_patterns_exclude_what_they_denote somePatterns
  obtain ⟨excluding, hexcluding, heligible⟩ := hoptions {} {} hconfig (.multiple texts) htexts
  have hname : ∀ c ∈ "getUser".toList, isNameChar c = true := by simp [isNameChar]
  have hgetUser : set.isMatch "getUser" = true :=
    (hmatch "getUser" hname).2 ((PlainGlob.someDenotes_iff hname).2 rfl)
  have hnames : ∀ operation ∈ operations, ∀ c ∈ operation.name.toList, isNameChar c = true := by
    simp [operations, plainQuery, isNameChar]
  have hfilter : excluding.eligible operations = operations.filter fun operation =>
      !somePatterns.any fun pattern => !pattern.pieces.isEmpty &&
        pattern.glob.isMatch operation.name := by
    rw [heligible operations hnames]
    refine List.filter_congr fun operation hoperation => ?_
    have hquery : operation.kind = .query := by
      obtain ⟨name, -, rfl⟩ := List.mem_map.1 hoperation
      rfl
    rw [Bool.eq_iff_iff, Bool.not_eq_true', ← Bool.not_eq_true,
      ← PlainGlob.someDenotes_iff (hnames operation hoperation)]
    simp only [decide_eq_true_eq, hquery, true_and]
  exact ⟨⟨set, htexts ▸ hset, hgetUser⟩, hconfig, excluding, hexcluding, hfilter.trans (by rfl)⟩

end Config

end QueryHooks
