import QueryHooks.Hook.Generation
import QueryHooks.Proofs.Casing.Words
import QueryHooks.Proofs.Text.Rows

/-!
# Rows of a hook

The source of a hook is a row with its signature, the rows of its body and a closing brace.  This
holds for every hook that is generated for an operation whose names fit into a line, and no row of
the body can be taken for the signature or for the closing brace.

Main results:

- Definition `Hook.rows`: the rows that the source of a hook is made of.
- Definition `Hook.IsTidy`: how the rows of a hook can be told apart.
- Theorem `Hook.lines_source`: the lines of the source are the rows.
- Theorem `isTidy_of_mem_hooksOf`: every hook of an operation is tidy.
-/

namespace QueryHooks

open Text (IsRow)

/-- The name of an operation and those of its types fit into a line. -/
structure Operation.IsSingleLine (operation : Operation) : Prop where
  name : IsRow operation.name.toList
  resultType : IsRow operation.resultType.toList
  variablesType : IsRow operation.variablesType.toList

/-- Both affixes fit into a line. -/
structure Affixes.IsSingleLine (affixes : Affixes) : Prop where
  before : IsRow affixes.before.toList
  after : IsRow affixes.after.toList

/-- A text in PascalCase fits into a line. -/
@[simp]
theorem isRow_pascal (text : String) :
    IsRow (Casing.pascalOfWords (Casing.words text.toList)) := by
  rw [← Casing.toList_pascal]
  intro c hc
  constructor
  · rintro rfl
    exact absurd (Casing.isAlphanum_or_underscore_of_mem_pascal hc) (by decide)
  · rintro rfl
    exact absurd (Casing.isAlphanum_or_underscore_of_mem_pascal hc) (by decide)

/-- Texts of one line each, with such a text between them, make one line. -/
theorem isRow_intercalate {separator : String} {texts : List String}
    (hseparator : IsRow separator.toList)
    (h : ∀ text ∈ texts, IsRow text.toList) : IsRow (separator.intercalate texts).toList := by
  rw [String.toList_intercalate]
  induction texts with
  | nil => simp
  | cons text texts ih =>
    have htext := h text List.mem_cons_self
    have hlater := ih fun other hother => h other (List.mem_cons_of_mem _ hother)
    cases texts with
    | nil => simpa using htext
    | cons next texts =>
      rw [List.map_cons, List.map_cons, List.intercalate_cons_cons]
      exact Text.isRow_append.2 ⟨Text.isRow_append.2 ⟨htext, hseparator⟩, hlater⟩

namespace Hook

/-! ## Rows -/

/-- The rows that the source of a hook is made of. -/
def rows (hook : Hook) : List (List Char) :=
  (hook.name ++ "(" ++ hook.signature ++ ") \x7b").toList ::
    (hook.body.map String.toList ++ [['\x7d']])

/-- The rows of a hook fit into lines, and the body has some, each of them indented. -/
structure IsTidy (hook : Hook) : Prop where
  name : IsRow hook.name.toList
  opening : "use".toList <+: hook.name.toList
  signature : IsRow hook.signature.toList
  body_ne_nil : hook.body ≠ []
  body : ∀ line ∈ hook.body, IsRow line.toList ∧ [' ', ' '] <+: line.toList

/-- A row is the signature of a hook, or indented as its body is, or the closing brace. -/
theorem IsTidy.mem_rows {hook : Hook} (h : hook.IsTidy) {row : List Char} (hrow : row ∈ hook.rows) :
    IsRow row ∧ ("use".toList <+: row ∨ [' ', ' '] <+: row ∨ row = ['\x7d']) := by
  rw [rows, List.mem_cons, List.mem_append, List.mem_map, List.mem_singleton] at hrow
  rcases hrow with rfl | ⟨line, hline, rfl⟩ | rfl
  · refine ⟨by simp [h.name, h.signature], .inl ?_⟩
    rw [String.toList_append, String.toList_append, String.toList_append, List.append_assoc,
      List.append_assoc]
    exact h.opening.trans (List.prefix_append _ _)
  · exact ⟨(h.body line hline).1, .inr (.inl (h.body line hline).2)⟩
  · exact ⟨by simp, .inr (.inr rfl)⟩

/-- All rows of a tidy hook are lines that are not empty. -/
theorem IsTidy.isRow_and_ne_nil {hook : Hook} (h : hook.IsTidy) :
    ∀ row ∈ hook.rows, IsRow row ∧ row ≠ [] := by
  intro row hrow
  obtain ⟨hline, hstart⟩ := h.mem_rows hrow
  refine ⟨hline, ?_⟩
  rintro rfl
  simp at hstart

/-- The source of a hook is its rows, one below the other. -/
theorem toList_source {hook : Hook} (hne : hook.body ≠ []) :
    hook.source.toList = Text.unlines hook.rows := by
  have hbody : hook.body.map String.toList ≠ [] := by simpa using hne
  rw [rows, Text.unlines_cons _ (by simp), Text.unlines_append hbody (by simp), source]
  simp [Text.unlines, String.toList_intercalate]

/-- The lines of the source of a hook are its rows. -/
theorem IsTidy.lines_source {hook : Hook} (h : hook.IsTidy) :
    Text.lines hook.source.toList = hook.rows := by
  rw [toList_source h.body_ne_nil, Text.lines_unlines h.isRow_and_ne_nil]

/-! ## Generated hooks -/

/-- A parameter is one line. -/
theorem Parameter.isRow_text {parameter : Parameter} (hname : IsRow parameter.name.toList)
    (htype : IsRow parameter.type.toList) : IsRow parameter.text.toList := by
  rw [text]
  split
  · simp [hname, htype]
  · simp [hname, htype]

/-- Parameters side by side are one line. -/
theorem isRow_signature {hook : Hook}
    (h : ∀ parameter ∈ hook.parameters, IsRow parameter.name.toList ∧ IsRow parameter.type.toList) :
    IsRow hook.signature.toList := by
  refine isRow_intercalate (by simp) ?_
  intro text htext
  obtain ⟨parameter, hparameter, rfl⟩ := List.mem_map.1 htext
  exact Parameter.isRow_text (h parameter hparameter).1 (h parameter hparameter).2

section Generated

variable {operation : Operation} {settings : Settings} (hoperation : operation.IsSingleLine)

include hoperation

/-- The type of a response is one line. -/
theorem isRow_responseType : IsRow (responseType operation settings).toList := by
  rw [responseType]
  split
  · simp [hoperation.resultType]
  · exact hoperation.resultType

/-- A generated key is one line. -/
theorem isRow_generatedKey : IsRow (generatedKey operation).toList := by
  simp [generatedKey, hoperation.variablesType]

/-- A standard hook is tidy. -/
theorem isTidy_standard : (standard operation settings).IsTidy := by
  have hresponse : IsRow (responseType operation settings).toList := isRow_responseType hoperation
  have hvariables := hoperation.variablesType
  have hkey := isRow_generatedKey hoperation
  have hname := hoperation.name
  cases hauto : settings.autogenKey with
  | false =>
    refine ⟨?_, ?_, isRow_signature ?_, ?_, ?_⟩
    all_goals
      simp [standard, hauto, hookName, Variant.ending, Parameter.required, Parameter.optionally,
        variablesParameter, hresponse, hvariables, hname]
  | true =>
    refine ⟨?_, ?_, isRow_signature ?_, ?_, ?_⟩
    all_goals
      simp [standard, hauto, hookName, Variant.ending, Parameter.optionally, variablesParameter,
        hresponse, hvariables, hkey, hname]

/-- An infinite hook is tidy if the affixes are one line. -/
theorem isTidy_infinite (haffixes : settings.affixes.IsSingleLine) :
    (infinite operation settings).IsTidy := by
  have hresponse : IsRow (responseType operation settings).toList := isRow_responseType hoperation
  have hvariables := hoperation.variablesType
  have hkey := isRow_generatedKey hoperation
  have hname := hoperation.name
  have hbefore := haffixes.before
  have hafter := haffixes.after
  cases hauto : settings.autogenKey with
  | false =>
    refine ⟨?_, ?_, isRow_signature ?_, ?_, ?_⟩
    all_goals
      simp [infinite, hauto, hookName, Variant.ending, Parameter.required, Parameter.optionally,
        variablesParameter, keyLoader, hresponse, hvariables, hname, hbefore, hafter]
  | true =>
    refine ⟨?_, ?_, isRow_signature ?_, ?_, ?_⟩
    all_goals
      simp [infinite, hauto, hookName, Variant.ending, Parameter.required, Parameter.optionally,
        variablesParameter, keyLoader, hresponse, hvariables, hkey, hname, hbefore, hafter]

end Generated

end Hook

/-- Every hook of an operation is tidy. -/
theorem isTidy_of_mem_hooksOf {operation : Operation} {settings : Hook.Settings}
    (hoperation : operation.IsSingleLine) (haffixes : settings.affixes.IsSingleLine) {hook : Hook}
    (h : hook ∈ hooksOf operation settings) : hook.IsTidy := by
  rw [hooksOf, List.mem_cons] at h
  rcases h with rfl | h
  · exact Hook.isTidy_standard hoperation
  · split at h
    · rw [List.mem_singleton.1 h]
      exact Hook.isTidy_infinite hoperation haffixes
    · exact absurd h List.not_mem_nil

end QueryHooks
