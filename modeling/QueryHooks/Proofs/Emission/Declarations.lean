import QueryHooks.Proofs.Emission.Landmarks
import QueryHooks.Emission.Emitter

/-!
# Declarations and imports of a module

The helpers that a module declares can be told by the beginnings of their declarations.  No line of
a hook can be taken for one of these, so each helper is declared once if its gate holds, and
otherwise not at all.  What comes from other modules is bound by the imports.

Main results:

- Definitions `Module.Declares` and `Module.Binds`: what the content of a module declares, and what
  its imports bind.
- Theorem `countLines_assemble`: a helper is declared once if its gate holds, and otherwise not at
  all.
- Theorem `declares_assemble`: a helper whose gate holds is declared under its whole name.
- Theorem `binds_of_infiniteEnabled`: the imports bind what infinite hooks use.
-/

namespace QueryHooks

open Config (isNamePart)

/-! ## Declarations -/

/-- The number of lines of a text that begin with a head. -/
def countLines (head : String) (text : String) : Nat :=
  (Text.lines text.toList).countP (head.toList.isPrefixOf ·)

/-- Some line of a module begins with a head that ends in a whole name. -/
def Module.Declares (module : Module) (head : String) : Prop :=
  ∃ line ∈ Text.lines module.content.toList, QueryHooks.Declares head.toList line

/-- No helper has a landmark with which that of another helper begins. -/
theorem Helper.eq_of_landmark {helper other : Helper} (h : helper.landmark <+: other.landmark) :
    helper = other := by
  revert h
  cases helper <;> cases other <;> decide

section Counting

variable {config : Config} {hooks : List Hook}

/-- No unmarked row begins with the head of a helper. -/
theorem countP_head_of_isUnmarked (affixes : Affixes) (helper : Helper) {rows : List (List Char)}
    (h : ∀ row ∈ rows, IsUnmarked row) :
    rows.countP ((helper.head affixes).toList.isPrefixOf ·) = 0 := by
  rw [List.countP_eq_zero]
  intro row hrow hhead
  have hbegins := (helper.begins_with_landmark affixes).trans (List.isPrefixOf_iff_prefix.1 hhead)
  exact (h row hrow).not_isLandmark ⟨helper.landmark, helper.landmark_mem, hbegins⟩

/-- The part of a helper has one line with its head, and none with the head of another helper. -/
theorem countP_head_part {affixes : Affixes} (haffixes : affixes.IsSingleLine)
    (helper other : Helper) :
    (Text.lines (other.part affixes).toList).countP ((helper.head affixes).toList.isPrefixOf ·) =
      if other = helper then 1 else 0 := by
  obtain ⟨first, unmarked, hlines, hdeclares, hunmarked⟩ := other.lines_part haffixes
  rw [hlines, List.countP_cons, countP_head_of_isUnmarked affixes helper hunmarked, Nat.zero_add]
  refine if_congr ?_ rfl rfl
  rw [List.isPrefixOf_iff_prefix]
  constructor
  · -- Two landmarks in front of one row are comparable, and those of two helpers are not.
    intro hhead
    have hhere := (helper.begins_with_landmark affixes).trans hhead
    have hthere := (other.begins_with_landmark affixes).trans hdeclares.begins
    rcases List.prefix_or_prefix_of_prefix hhere hthere with h | h
    · exact (Helper.eq_of_landmark h).symm
    · exact Helper.eq_of_landmark h
  · rintro rfl
    exact hdeclares.begins

/-- The type of the bundle is declared under another name than the helpers are. -/
theorem not_head_bundleType (affixes : Affixes) (helper : Helper) :
    ¬(helper.head affixes).toList <+: (bundleType affixes).toList := by
  cases helper with
  | keyLoader => simp [Helper.head, bundleType, Hook.keyLoader]
  | rawResponse | utilities | keyGenerator => simp [Helper.head, bundleType]

/-- No line of the bundle, and no line behind it, begins with the head of a helper. -/
theorem countP_head_bundle (haffixes : config.affixes.IsSingleLine)
    (h : ∀ hook ∈ hooks, hook.IsTidy)
    (helper : Helper) :
    ([bundle hooks, bundleType config.affixes].flatMap fun part => Text.lines part.toList).countP
      ((helper.head config.affixes).toList.isPrefixOf ·) = 0 := by
  have hspelled := countP_head_of_isUnmarked config.affixes helper fun row =>
    isUnmarked_of_mem_spelled h
  have hlandmark := helper.begins_with_landmark config.affixes
  have hframe : ∀ row ∈ ["  return \x7b".toList, "    ...sdk,".toList, "  \x7d;".toList, ['\x7d']],
      ¬helper.landmark <+: row := by
    cases helper <;> decide
  have hnone : ∀ row ∈ ["  return \x7b".toList, "    ...sdk,".toList, "  \x7d;".toList, ['\x7d']],
      (helper.head config.affixes).toList.isPrefixOf row = false := by
    intro row hrow
    rw [Bool.eq_false_iff, Ne, List.isPrefixOf_iff_prefix]
    exact fun hhead => hframe row hrow (hlandmark.trans hhead)
  have htype : (helper.head config.affixes).toList.isPrefixOf (bundleType config.affixes).toList =
      false := by
    rw [Bool.eq_false_iff, Ne, List.isPrefixOf_iff_prefix]
    exact not_head_bundleType config.affixes helper
  simp only [List.forall_mem_cons] at hnone
  obtain ⟨hreturn, hsdk, hclosing, hbrace, _⟩ := hnone
  rw [List.flatMap_cons, List.flatMap_singleton, lines_bundle h, lines_bundleType haffixes]
  simp only [List.countP_append, List.countP_cons, List.countP_nil, hspelled, hreturn, hsdk,
    hclosing, hbrace, htype, Bool.false_eq_true, if_false, Nat.add_zero]

/-- The lines of an optional part count only if the part is there. -/
theorem countP_flatMap_ite (counted : List Char → Bool) (gate : Bool) (part : String) :
    ((if gate then [part] else []).flatMap fun part => Text.lines part.toList).countP counted =
      if gate then (Text.lines part.toList).countP counted else 0 := by
  cases gate with
  | false => rfl
  | true => rw [if_pos rfl, if_pos rfl, List.flatMap_singleton]

/-- A helper is declared once in a module if its gate holds, and otherwise not at all. -/
theorem countLines_assemble (haffixes : config.affixes.IsSingleLine)
    (h : ∀ hook ∈ hooks, hook.IsTidy) (helper : Helper) :
    countLines (helper.head config.affixes) (config.assemble hooks) =
      if helper.gate config then 1 else 0 := by
  have hraw := countP_head_part haffixes helper .rawResponse
  have hloader := countP_head_part haffixes helper .keyLoader
  have hutilities := countP_head_part haffixes helper .utilities
  have hgenerator := countP_head_part haffixes helper .keyGenerator
  have hopening := countP_head_of_isUnmarked config.affixes helper isUnmarked_of_mem_factoryOpening
  rw [countLines, lines_assemble, Config.parts_eq, List.flatMap_append, List.countP_append,
    countP_head_bundle haffixes h, Config.partsBefore]
  simp only [Helper.part] at hraw hloader hutilities hgenerator
  simp only [List.flatMap_append, List.countP_append, countP_flatMap_ite, List.flatMap_singleton,
    hraw, hloader, hopening, hutilities, hgenerator]
  cases helper with
  | rawResponse | keyLoader | utilities | keyGenerator =>
    simp only [reduceCtorEq, if_true, if_false, ite_self, Nat.zero_add, Nat.add_zero]
    rfl

/-- A helper whose gate holds is declared under its whole name. -/
theorem declares_assemble (haffixes : config.affixes.IsSingleLine) {helper : Helper}
    (hgate : helper.gate config = true) :
    ∃ line ∈ Text.lines (config.assemble hooks).toList,
      Declares (helper.head config.affixes).toList line := by
  obtain ⟨first, unmarked, hlines, hdeclares, _⟩ := helper.lines_part haffixes
  have hpart : helper.part config.affixes ∈ config.partsBefore :=
    Config.mem_partsBefore.2 (.inr ⟨helper, hgate, rfl⟩)
  refine ⟨first, ?_, hdeclares⟩
  rw [lines_assemble, Config.parts_eq, List.mem_flatMap]
  refine ⟨helper.part config.affixes, List.mem_append_left _ hpart, ?_⟩
  rw [hlines]
  exact List.mem_cons_self

end Counting

/-! ## Imports -/

/-- The words of an import: the longest runs of characters that names have. -/
def importWords (line : List Char) : List (List Char) :=
  (line.splitOnP fun c => !isNamePart c).filter (· ≠ [])

/-- The names that are bound where words are listed, some of them with new names behind `as`. -/
def listedNames : List (List Char) → List (List Char)
  | _ :: ['a', 's'] :: name :: words => name :: listedNames words
  | name :: words => name :: listedNames words
  | [] => []

/-- The names that an import binds; they stand between its keyword and the word `from`. -/
def boundNames (line : List Char) : List (List Char) :=
  match importWords line with
  | ['i', 'm', 'p', 'o', 'r', 't'] :: ['t', 'y', 'p', 'e'] :: words
  | ['i', 'm', 'p', 'o', 'r', 't'] :: words =>
    listedNames (words.takeWhile (· ≠ ['f', 'r', 'o', 'm']))
  | _ => []

/-- An import of a module binds a name. -/
def Module.Binds (module : Module) (name : String) : Prop :=
  ∃ line ∈ module.imports, name.toList ∈ boundNames line.toList

/-- The names that a known line binds can be computed. -/
theorem boundNames_of_ofList {line : String} {chars : List Char} {names : List (List Char)}
    (h : line = String.ofList chars) (hnames : boundNames chars = names) :
    boundNames line.toList = names := by
  rw [Text.toList_eq_of_ofList h, hnames]

/-- The imports bind what infinite hooks use, whether types are imported apart or not. -/
theorem binds_of_infiniteEnabled {config : Config} (h : config.infiniteEnabled = true)
    {module : Module} (himports : module.imports = config.imports) :
    module.Binds "useSWRInfinite" ∧ module.Binds "SWRInfiniteConfiguration" := by
  have htype :
    boundNames "import type \x7b SWRInfiniteConfiguration \x7d from 'swr/infinite';".toList =
      ["SWRInfiniteConfiguration".toList] := boundNames_of_ofList rfl (by decide)
  have hvalue : boundNames "import useSWRInfinite from 'swr/infinite';".toList =
      ["useSWRInfinite".toList] := boundNames_of_ofList rfl (by decide)
  have hboth : boundNames
      "import useSWRInfinite, \x7b SWRInfiniteConfiguration \x7d from 'swr/infinite';".toList =
      ["useSWRInfinite".toList, "SWRInfiniteConfiguration".toList] :=
    boundNames_of_ofList rfl (by decide)
  rw [Module.Binds, Module.Binds, himports, Config.imports]
  cases htypes : config.useTypeImports with
  | true =>
    simp only [h, if_true, List.cons_append, List.nil_append]
    refine ⟨⟨_, .tail _ (.tail _ (.tail _ (.tail _ (.head _)))), ?_⟩,
      ⟨_, .tail _ (.tail _ (.head _)), ?_⟩⟩
    · rw [hvalue]
      exact .head _
    · rw [htype]
      exact .head _
  | false =>
    simp only [h, Bool.false_eq_true, if_false, if_true, List.cons_append, List.nil_append]
    refine ⟨⟨_, .tail _ (.tail _ (.head _)), ?_⟩, ⟨_, .tail _ (.tail _ (.head _)), ?_⟩⟩
    · rw [hboth]
      exact .head _
    · rw [hboth]
      exact .tail _ (.head _)

end QueryHooks
