import QueryHooks.Proofs.Emission.Declarations
import QueryHooks.Proofs.Emission.Ownership
import QueryHooks.Proofs.Hook.AppliedNames
import QueryHooks.Proofs.Operation.Joining
import QueryHooks.Proofs.Operation.Names

/-!
# Support of hooks by their module

The hooks of a module refer to helpers that the module declares or imports.  Which helpers there are
is decided by the options, and what each hook refers to by the settings for its operation; the two
agree.

Main results:

- Definition `Module.Supports`: a module has every helper that a hook refers to.
- Theorem `supports_assemble`: the module of some hooks supports each of them.
- Theorem `helpers_are_declared_where_applied`: in an emitted module, no helper is missing or
  repeated.
-/

namespace QueryHooks

open Config (isNamePart)

/-! ## Loaded operations -/

/-- A configuration made of options has plain affixes. -/
theorem Config.Reflects.arePlain {options : Options} {config : Config}
    (h : Reflects options config) :
    config.affixes.ArePlain :=
  ⟨h.before, h.after⟩

/-- Plain affixes have no line ends. -/
theorem Affixes.ArePlain.isSingleLine {affixes : Affixes} (h : affixes.ArePlain) :
    affixes.IsSingleLine :=
  ⟨isRow_of_isNamePart h.before, isRow_of_isNamePart h.after⟩

/-- A name has no character that names do not have. -/
theorem isNamePart_of_isName {chars : List Char} (h : Document.IsName chars) :
    ∀ c ∈ chars, isNamePart c = true := by
  cases chars with
  | nil => simp
  | cons c rest =>
    obtain ⟨hfirst, hrest⟩ := h
    rw [List.forall_mem_cons]
    constructor
    · rcases hfirst with hc | rfl
      · simp [isNamePart, Char.isAlphanum, hc]
      · decide
    · intro d hd
      rcases hrest d hd with hd | rfl
      · simp [isNamePart, hd]
      · decide

/-- The names of a loaded operation and of its types are made of characters that names have. -/
theorem Operation.IsLoaded.hasPlainNames {affixes : Affixes} {operation : Operation}
    (h : operation.IsLoaded affixes) (haffixes : affixes.ArePlain) : operation.HasPlainNames := by
  have hkind : ∀ c ∈ operation.kind.name.toList, isNamePart c = true := by
    cases operation.kind <;> simp [Kind.name, isNamePart]
  have hvariables : ∀ c ∈ "Variables".toList, isNamePart c = true := by simp [isNamePart]
  have htype : ∀ c ∈ (typeName operation.kind operation.name).toList, isNamePart c = true := by
    rw [typeName, String.toList_append, Casing.toList_pascal, List.forall_mem_append]
    exact ⟨isNamePart_of_mem_pascal operation.name, hkind⟩
  refine ⟨isNamePart_of_isName h.isName, ?_, ?_⟩
  · rw [h.resultType_eq]
    exact haffixes.wrap htype
  · rw [h.variablesType_eq]
    refine haffixes.wrap ?_
    rw [variablesTypeName, String.toList_append, List.forall_mem_append]
    exact ⟨htype, hvariables⟩

/-- An operation with plain names has none with a line end. -/
theorem Operation.HasPlainNames.isSingleLine {operation : Operation} (h : operation.HasPlainNames) :
    operation.IsSingleLine :=
  ⟨isRow_of_isNamePart h.name, isRow_of_isNamePart h.resultType,
    isRow_of_isNamePart h.variablesType⟩

/-! ## Helpers that hooks refer to -/

/-- The name that a type begins with. -/
def leadingName (type : String) : String :=
  String.ofList (type.toList.takeWhile isNamePart)

/-- The name in front of a bracket is the one that a type begins with. -/
theorem leadingName_eq {type name : String} (hname : ∀ c ∈ name.toList, isNamePart c = true)
    (h : ∃ rest, type.toList = name.toList ++ '<' :: rest) : leadingName type = name := by
  obtain ⟨rest, h⟩ := h
  have hbracket : isNamePart '<' = false := by decide
  rw [leadingName, h, List.takeWhile_append_of_pos hname,
    List.takeWhile_cons_of_neg (by simp [hbracket]),
    List.append_nil, String.ofList_toList]

/--
The parameter that chooses keys has a type that begins with the name of the type for key loaders.
-/
theorem Hook.leadingName_getKey (operation : Operation) (settings : Settings)
    (haffixes : settings.affixes.ArePlain) :
    ∃ getKey, (infinite operation settings).parameter? "getKey" = some getKey ∧
      leadingName getKey.type = settings.affixes.wrap keyLoader := by
  have hname := isNamePart_of_mem_wrap_keyLoader haffixes
  have hfound : (infinite operation settings).parameter? "getKey" =
      some (.required "getKey" (settings.affixes.wrap keyLoader ++
        ("<" ++ responseType operation settings ++ ", " ++ operation.variablesType ++ ">"))) := by
    cases hauto : settings.autogenKey with
    | false => simp [parameter?, infinite, hauto, Parameter.required]
    | true => simp [parameter?, infinite, hauto, Parameter.required]
  refine ⟨_, hfound, leadingName_eq hname ?_⟩
  rw [Parameter.required, String.toList_append, String.toList_append, String.toList_append,
    String.toList_append, String.toList_append]
  exact ⟨_, rfl⟩

/-- Whether some options ask for a helper. -/
def Helper.IsWanted (options : Options) : Helper → Prop
  | rawResponse => options.rawResponse = true
  | keyLoader | utilities => PatternSetting.IsUsed options.infiniteQueries?
  | keyGenerator => options.autogenKey = true

/-- A helper is declared if and only if the options ask for it. -/
theorem Config.Reflects.gate_iff {options : Options} {config : Config} (h : Reflects options config)
    (helper : Helper) : helper.gate config = true ↔ helper.IsWanted options := by
  cases helper with
  | rawResponse => rw [Helper.gate, Helper.IsWanted, h.rawResponse_eq]
  | keyLoader | utilities => exact h.infiniteEnabled_iff
  | keyGenerator => rw [Helper.gate, Helper.IsWanted, h.autogenKey_eq]

/-- A module declares or imports every helper that a hook refers to. -/
structure Module.Supports (module : Module) (hook : Hook) : Prop where
  /-- An infinite hook has the type of its key loader, the utilities and its imports. -/
  infinite : hook.variant = .infinite →
    (∃ getKey, hook.parameter? "getKey" = some getKey ∧
      module.Declares ("export type " ++ leadingName getKey.type)) ∧
    module.Declares "  const utilsForInfinite" ∧
    module.Binds "useSWRInfinite" ∧ module.Binds "SWRInfiniteConfiguration"
  rawResponse : ∀ text ∈ hook.texts,
    Applies "SWRRawResponse" text → module.Declares "type SWRRawResponse"
  keyGenerator : ∀ text ∈ hook.texts, Applies "genKey" text → module.Declares "  const genKey"

/-- A generated hook is one of an operation under the settings for it. -/
theorem Config.mem_hooksFor {config : Config} {operations : List Operation} {hook : Hook}
    (h : hook ∈ config.hooksFor operations) :
    ∃ operation ∈ operations, hook ∈ hooksOf operation (config.settingsFor operation) := by
  obtain ⟨operation, hoperation, hmem⟩ := List.mem_flatMap.1 h
  exact ⟨operation, (List.mem_filter.1 hoperation).1, hmem⟩

/-- The module of some hooks supports each of them. -/
theorem supports_assemble {config : Config} (haffixes : config.affixes.ArePlain)
    {operations : List Operation} (hplain : ∀ operation ∈ operations, operation.HasPlainNames)
    {module : Module} (himports : module.imports = config.imports)
    (hcontent : module.content = config.assemble (config.hooksFor operations)) {hook : Hook}
    (hhook : hook ∈ config.hooksFor operations) : module.Supports hook := by
  obtain ⟨operation, hoperation, hmem⟩ := Config.mem_hooksFor hhook
  have hdeclares (helper : Helper) (hgate : helper.gate config = true) :
      module.Declares (helper.head config.affixes) := by
    rw [Module.Declares, hcontent]
    exact declares_assemble haffixes.isSingleLine hgate
  have happlied := applied_of_mem_hooksOf (hplain operation hoperation) haffixes hmem
  refine ⟨?_, ?_, ?_⟩
  · intro hvariant
    rw [hooksOf, List.mem_cons, List.mem_ite_nil_right, List.mem_singleton] at hmem
    rcases hmem with rfl | ⟨hinfinite, rfl⟩
    · exact absurd hvariant (by simp [Hook.standard])
    · -- An infinite hook is asked for by a pattern, which is what the gate of its helpers looks at.
      have henabled : config.infiniteEnabled = true := (Bool.and_eq_true_iff.1 hinfinite).1
      obtain ⟨getKey, hgetKey, hleading⟩ :=
        Hook.leadingName_getKey operation (config.settingsFor operation) haffixes
      refine ⟨⟨getKey, hgetKey, ?_⟩, hdeclares .utilities henabled,
        binds_of_infiniteEnabled henabled himports⟩
      rw [hleading]
      exact hdeclares .keyLoader henabled
  · intro text htext happlies
    refine hdeclares .rawResponse (happlied.1 ?_)
    exact List.mem_flatMap.2 ⟨text, htext, happlies.mem_appliedNames (by simp [isNamePart])⟩
  · intro text htext happlies
    refine hdeclares .keyGenerator (happlied.2 ?_)
    exact List.mem_flatMap.2 ⟨text, htext, happlies.mem_appliedNames (by simp [isNamePart])⟩

/-! ## Emitted modules -/

/--
An emitted module declares or imports every helper that one of its hooks refers to, under the name
by which the hook does so, whatever the options and the loaded operations are.  Each helper is
declared once if the options ask for it, and otherwise not at all.
-/
theorem helpers_are_declared_where_applied {options : Options} {config : Config}
    (hconfig : Config.ofOptions options = .ok config) {operations : List Operation}
    (hloaded : ∀ operation ∈ operations, ∃ path? text loaded,
      loadText config.affixes path? text = .ok loaded ∧ operation ∈ loaded)
    {hooks : List Hook} {module : Module}
    (hhooks : ((Emitter.mk config {}).recordAll operations).hooks = .ok hooks)
    (hemit : ((Emitter.mk config {}).recordAll operations).emit = .ok module) :
    (∀ hook ∈ hooks, module.Supports hook) ∧
      ∀ helper : Helper,
        (helper.IsWanted options → countLines (helper.head config.affixes) module.content = 1) ∧
        (¬helper.IsWanted options →
          countLines (helper.head config.affixes) module.content = 0) := by
  have hreflects := Config.reflects_of_ofOptions hconfig
  have hplain : ∀ operation ∈ operations, operation.HasPlainNames := by
    intro operation hoperation
    obtain ⟨path?, text, loaded, hload, hmem⟩ := hloaded operation hoperation
    exact (isLoaded_of_loadText hload operation hmem).hasPlainNames hreflects.arePlain
  have hgenerated : hooks = config.hooksFor operations := by
    obtain ⟨rfl, _⟩ := Emitter.hooks_eq_ok_iff.1 hhooks
    simp [Emitter.recordedHooks, Emitter.recordAll]
  obtain rfl := Emitter.eq_of_emit hhooks hemit
  obtain rfl := hgenerated
  refine ⟨fun hook hhook => supports_assemble hreflects.arePlain hplain rfl rfl hhook, ?_⟩
  intro helper
  have htidy : ∀ hook ∈ config.hooksFor operations, hook.IsTidy := fun hook hhook =>
    Config.isTidy_of_mem_hooksFor hreflects.isSingleLine
      (fun operation hoperation => (hplain operation hoperation).isSingleLine) hhook
  have hcount := countLines_assemble hreflects.isSingleLine htidy helper
  have hgate := hreflects.gate_iff helper
  constructor
  · intro hwanted
    exact hcount.trans (if_pos (hgate.2 hwanted))
  · intro hnot
    exact hcount.trans (if_neg fun h => hnot (hgate.1 h))

/-- The set of the one pattern that every name matches. -/
def everyName : PatternSet where
  globs := [⟨"*", [.anyBytes]⟩]
  parsed := by
    rw [List.forall_mem_singleton]
    cbv

/-- Infinite hooks for all queries, and keys that are made. -/
def pagingOptions : Options where
  infiniteQueries? := some (.single "*")
  autogenKey := true
  typesPrefix := "T"

/-- The configuration that these options make. -/
def pagingConfig : Config where
  infiniteQueries := everyName
  autogenKey := true
  affixes := ⟨"T", ""⟩

/-- These options are valid. -/
theorem ofOptions_pagingOptions : Config.ofOptions pagingOptions = .ok pagingConfig := by
  have hread : PatternSet.readAll ["*"] = .ok everyName.globs := by cbv
  have hset : PatternSet.ofList ["*"] = .ok everyName := by
    unfold PatternSet.ofList
    split
    · rename_i herror
      exact absurd (herror.symm.trans hread) (by simp)
    · rename_i globs hglobs
      obtain rfl := Except.ok.inj (hglobs.symm.trans hread)
      rfl
  have hpatterns : Config.readPatterns .infiniteQueries (some (.single "*")) = .ok everyName := by
    have hsingle : (some (PatternSetting.single "*")).elim [] PatternSetting.patterns = ["*"] := by
      decide
    rw [Config.readPatterns, hsingle, hset]
  have hnone : Config.readPatterns .excludeQueries none = .ok ∅ := rfl
  have hbefore : Config.checkAffix .typesPrefix "T" = .ok "T" := by decide
  have hafter : Config.checkAffix .typesSuffix "" = .ok "" := rfl
  simp only [Config.ofOptions, pagingOptions, hbefore, hafter, hnone, hpatterns]
  rfl

/-- A query without variables. -/
def queryA : Operation where
  kind := .query
  name := "A"
  resultType := "TAQuery"
  variablesType := "TAQueryVariables"
  declared := []
  distinct := List.nodup_nil

/-- The two hooks of the query under this configuration. -/
def hooksOfQueryA : List Hook :=
  hooksOf queryA ⟨true, true, false, ⟨"T", ""⟩⟩

/-- These are the hooks of the query. -/
theorem hooks_queryA :
    ((Emitter.mk pagingConfig {}).recordAll [queryA]).hooks = .ok hooksOfQueryA := by
  cbv

/-- The module of the query has what its hooks refer to, and no type for a whole response. -/
theorem declarations_of_queryA :
    Config.ofOptions pagingOptions = .ok pagingConfig ∧
      loadText pagingConfig.affixes (some ⟨"a.graphql"⟩) "query A \x7b f \x7d # the end" =
        .ok [queryA] ∧
      ∃ module, ((Emitter.mk pagingConfig {}).recordAll [queryA]).emit = .ok module ∧
        (∀ hook ∈ hooksOfQueryA, module.Supports hook) ∧
        countLines "export type TSWRInfiniteKeyLoader" module.content = 1 ∧
        countLines "  const genKey" module.content = 1 ∧
        countLines "type SWRRawResponse" module.content = 0 := by
  have hload : loadText pagingConfig.affixes (some ⟨"a.graphql"⟩) "query A \x7b f \x7d # the end" =
      .ok [queryA] := by
    cases loadText_commentedDocuments with
    | cons hfirst _ => exact hfirst
  obtain ⟨module, hemit⟩ := Emitter.exists_emit_of_hooks hooks_queryA
  have hall := helpers_are_declared_where_applied ofOptions_pagingOptions
    (List.forall_mem_singleton.2 ⟨_, _, _, hload, List.mem_singleton_self queryA⟩) hooks_queryA
      hemit
  obtain ⟨hsupports, hcount⟩ := hall
  have hwanted : PatternSetting.IsUsed pagingOptions.infiniteQueries? :=
    ⟨.single "*", rfl, "*", List.mem_singleton_self _, by decide⟩
  exact ⟨ofOptions_pagingOptions, hload, module, hemit, hsupports, (hcount .keyLoader).1 hwanted,
    (hcount .keyGenerator).1 rfl,
    (hcount .rawResponse).2 (by simp [Helper.IsWanted, pagingOptions])⟩

end QueryHooks
