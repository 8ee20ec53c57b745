import Mathlib.Data.List.ModifyLast
import QueryHooks.Emission.Assembly
import QueryHooks.Proofs.Hook.Rows

/-!
# Lines of a module

The parts of a module stand below each other, and so do their lines.  In the bundle the rows of the
hooks are indented by two levels, and a comma behind the last row of each hook but the last keeps
them apart.

Main results:

- Theorem `lines_joinLines`: the lines of parts below each other.
- Definition `spelled`: blocks of rows with commas between them.
- Theorem `lines_bundle`: the lines of the bundle.
- Theorem `lines_assemble`: the lines of a module are those of its parts.
-/

namespace QueryHooks

open Text (IsRow EndsOpen)

/-! ## Parts below each other -/

/-- Parts that are joined are their texts with a line feed between them. -/
theorem toList_joinLines (parts : List String) :
    (joinLines parts).toList = Text.unlines (parts.map String.toList) := by
  simp [joinLines, Text.unlines, String.toList_intercalate]

/-- Parts whose last lines are not ended stand below each other with all their lines. -/
theorem lines_joinLines {parts : List String} (h : ∀ part ∈ parts, EndsOpen part.toList) :
    Text.lines (joinLines parts).toList = parts.flatMap fun part => Text.lines part.toList := by
  rw [toList_joinLines, Text.lines_unlines_of_endsOpen, List.flatMap_map]
  exact List.forall_mem_map.2 h

/-- Joined parts end as the last of them. -/
theorem endsOpen_joinLines {parts : List String} {last : String}
    (hlast : parts.getLast? = some last)
    (h : EndsOpen last.toList) : EndsOpen (joinLines parts).toList := by
  rw [toList_joinLines]
  refine Text.endsOpen_unlines ?_ h
  rw [List.getLast?_map, hlast]
  rfl

theorem endsOpen_append {text last : String} (h : EndsOpen last.toList) :
    EndsOpen (text ++ last).toList := by
  rw [String.toList_append]
  exact h.append

/-- Rows below each other, of which none is empty, are the lines of the whole. -/
theorem lines_joinLines_of_isRow {rows : List String}
    (h : ∀ row ∈ rows, IsRow row.toList ∧ row.toList ≠ []) :
    Text.lines (joinLines rows).toList = rows.map String.toList := by
  rw [toList_joinLines, Text.lines_unlines]
  exact List.forall_mem_map.2 h

/-! ## Blocks with commas between them -/

/-- Rows with a comma behind the last of them. -/
def closeWithComma (rows : List (List Char)) : List (List Char) :=
  rows.modifyLast (· ++ [','])

/--
Blocks of rows, one below the other, with a comma behind the last row of each block but the last.
-/
def spelled : List (List (List Char)) → List (List Char)
  | [] => []
  | [block] => block
  | block :: blocks => closeWithComma block ++ spelled blocks

/-- The comma goes behind the last row. -/
theorem closeWithComma_concat (rows : List (List Char)) (row : List Char) :
    closeWithComma (rows ++ [row]) = rows ++ [row ++ [',']] :=
  List.modifyLast_concat ..

/-- A block in front of others is closed with a comma. -/
theorem spelled_cons (block : List (List Char)) {blocks : List (List (List Char))}
    (hne : blocks ≠ []) :
    spelled (block :: blocks) = closeWithComma block ++ spelled blocks := by
  rw [spelled]
  exact hne

/-- Rows that are closed with a comma are their text and the comma. -/
theorem unlines_closeWithComma {rows : List (List Char)} (hne : rows ≠ []) :
    closeWithComma rows ≠ [] ∧ Text.unlines (closeWithComma rows) = Text.unlines rows ++ [','] := by
  obtain ⟨init, last, rfl⟩ := (List.eq_nil_or_concat' rows).resolve_left hne
  rw [closeWithComma_concat]
  refine ⟨by simp, ?_⟩
  cases init with
  | nil => simp [Text.unlines]
  | cons row rows =>
    rw [Text.unlines_append (by simp) (by simp), Text.unlines_append (by simp) (by simp)]
    simp [Text.unlines]

/-- Blocks that have rows are spelled by at least one row. -/
theorem spelled_ne_nil {blocks : List (List (List Char))} (hne : blocks ≠ [])
    (h : ∀ block ∈ blocks, block ≠ []) : spelled blocks ≠ [] := by
  cases blocks with
  | nil => exact absurd rfl hne
  | cons block blocks =>
    have hblock := h block List.mem_cons_self
    cases blocks with
    | nil => exact hblock
    | cons next blocks =>
      rw [spelled_cons block (by simp)]
      simp [(unlines_closeWithComma hblock).1]

/-- The text of spelled blocks has a comma and a line feed between the texts of the blocks. -/
theorem unlines_spelled {blocks : List (List (List Char))} (h : ∀ block ∈ blocks, block ≠ []) :
    Text.unlines (spelled blocks) = [',', '\n'].intercalate (blocks.map Text.unlines) := by
  induction blocks with
  | nil => rfl
  | cons block blocks ih =>
    have hlater : ∀ other ∈ blocks, other ≠ [] := fun other hother =>
      h other (List.mem_cons_of_mem _ hother)
    cases blocks with
    | nil => simp [spelled]
    | cons next blocks =>
      obtain ⟨hclosed, hcomma⟩ := unlines_closeWithComma (h block List.mem_cons_self)
      have hrest := spelled_ne_nil (by simp) hlater
      rw [spelled_cons block (by simp), Text.unlines_append hclosed hrest, hcomma, ih hlater,
        List.map_cons, List.map_cons, List.map_cons, List.intercalate_cons_cons]
      simp

/-- A row of spelled blocks is one of a block, perhaps with a comma behind it. -/
theorem mem_of_mem_spelled {blocks : List (List (List Char))} {row : List Char}
    (h : row ∈ spelled blocks) :
    ∃ block ∈ blocks, ∃ written ∈ block, row = written ∨ row = written ++ [','] := by
  induction blocks with
  | nil => exact absurd h List.not_mem_nil
  | cons block blocks ih =>
    cases blocks with
    | nil => exact ⟨block, List.mem_cons_self, row, h, .inl rfl⟩
    | cons next blocks =>
      rw [spelled_cons block (by simp), List.mem_append] at h
      rcases h with hclosed | hlater
      · rcases List.eq_nil_or_concat' block with rfl | ⟨init, last, rfl⟩
        · exact absurd hclosed List.not_mem_nil
        · rw [closeWithComma_concat, List.mem_append, List.mem_singleton] at hclosed
          rcases hclosed with hinit | rfl
          · exact ⟨_, List.mem_cons_self, row, by simp [hinit], .inl rfl⟩
          · exact ⟨_, List.mem_cons_self, last, by simp, .inr rfl⟩
      · obtain ⟨other, hother, hrow⟩ := ih hlater
        exact ⟨other, List.mem_cons_of_mem _ hother, hrow⟩

/-! ## The bundle -/

/-- A row behind four spaces. -/
def indented (row : List Char) : List Char :=
  ' ' :: ' ' :: ' ' :: ' ' :: row

/-- The rows of a hook as they stand in the bundle. -/
def Hook.indentedRows (hook : Hook) : List (List Char) :=
  (Text.lines hook.source.toList).map indented

/-- The indented source of a tidy hook is made of its indented rows. -/
theorem Hook.IsTidy.toList_indent {hook : Hook} (h : hook.IsTidy) :
    (indent 2 hook.source).toList = Text.unlines hook.indentedRows := by
  have hrows : (Text.lines hook.source.toList).map (indentLine 2) = hook.indentedRows := by
    apply List.map_congr_left
    intro row hrow
    rw [h.lines_source] at hrow
    have hne : row ≠ [] := (h.isRow_and_ne_nil row hrow).2
    simp [indentLine, indented, hne, List.replicate]
  rw [indent, hrows, String.toList_ofList]

variable {hooks : List Hook}

/-- The text of tidy hooks in the bundle is made of their rows, with commas between them. -/
theorem toList_hookLines (h : ∀ hook ∈ hooks, hook.IsTidy) :
    (hookLines hooks).toList = Text.unlines (spelled (hooks.map Hook.indentedRows)) := by
  have hne : ∀ block ∈ hooks.map Hook.indentedRows, block ≠ [] := by
    rw [List.forall_mem_map]
    intro hook hhook
    rw [Hook.indentedRows, (h hook hhook).lines_source]
    simp [Hook.rows]
  have hindent : hooks.map (fun hook => (indent 2 hook.source).toList) =
      (hooks.map Hook.indentedRows).map Text.unlines := by
    rw [List.map_map]
    exact List.map_congr_left fun hook hhook => (h hook hhook).toList_indent
  rw [unlines_spelled hne, ← hindent, hookLines, String.toList_intercalate, List.map_map]
  rfl

/-- The lines of the hooks are indented by two levels, and so are those of their bodies by three. -/
theorem indented_of_mem_spelled (h : ∀ hook ∈ hooks, hook.IsTidy) {row : List Char}
    (hrow : row ∈ spelled (hooks.map Hook.indentedRows)) :
    ∃ rest, row = indented rest ∧ IsRow rest ∧
      ("use".toList <+: rest ∨ [' ', ' '] <+: rest ∨ ['\x7d'] <+: rest) := by
  obtain ⟨block, hblock, written, hwritten, hor⟩ := mem_of_mem_spelled hrow
  obtain ⟨hook, hhook, rfl⟩ := List.mem_map.1 hblock
  rw [Hook.indentedRows, (h hook hhook).lines_source] at hwritten
  obtain ⟨bare, hbare, rfl⟩ := List.mem_map.1 hwritten
  obtain ⟨hline, hstart⟩ := (h hook hhook).mem_rows hbare
  have hbegins : "use".toList <+: bare ∨ [' ', ' '] <+: bare ∨ ['\x7d'] <+: bare := by
    rcases hstart with huse | hbody | rfl
    · exact .inl huse
    · exact .inr (.inl hbody)
    · exact .inr (.inr (List.prefix_refl _))
  rcases hor with rfl | rfl
  · exact ⟨bare, rfl, hline, hbegins⟩
  · have hcomma : bare <+: bare ++ [','] := List.prefix_append _ _
    refine ⟨bare ++ [','], rfl, by simp [hline], ?_⟩
    rcases hbegins with huse | hbody | hbrace
    · exact .inl (huse.trans hcomma)
    · exact .inr (.inl (hbody.trans hcomma))
    · exact .inr (.inr (hbrace.trans hcomma))

/-- The lines of the bundle: those of the hooks stand between two lines of its own. -/
theorem lines_bundle (h : ∀ hook ∈ hooks, hook.IsTidy) :
    Text.lines (bundle hooks).toList =
      ["  return \x7b".toList, "    ...sdk,".toList] ++ spelled (hooks.map Hook.indentedRows) ++
        ["  \x7d;".toList, ['\x7d']] := by
  have htext : (bundle hooks).toList =
      Text.unlines (["  return \x7b".toList, "    ...sdk,".toList] ++
        spelled (hooks.map Hook.indentedRows) ++ ["  \x7d;".toList, ['\x7d']]) := by
    rw [bundle, toList_joinLines]
    cases hooks with
    | nil => rfl
    | cons hook hooks =>
      have hne : spelled ((hook :: hooks).map Hook.indentedRows) ≠ [] := by
        refine spelled_ne_nil (by simp) ?_
        rw [List.forall_mem_map]
        intro other hother
        simp [Hook.indentedRows, (h other hother).lines_source, Hook.rows]
      have hblocks : ∀ block ∈ [["  return \x7b".toList], ["    ...sdk,".toList],
          spelled ((hook :: hooks).map Hook.indentedRows), ["  \x7d;".toList], [['\x7d']]],
          block ≠ [] := by
        simpa using hne
      have hall := Text.unlines_map_unlines hblocks
      simpa [Text.unlines, toList_hookLines h] using hall
  rw [htext, Text.lines_unlines]
  intro row hrow
  rw [List.mem_append, List.mem_append] at hrow
  rcases hrow with (hopening | hspelled) | hclosing
  · revert row
    decide
  · obtain ⟨rest, rfl, hrest, _⟩ := indented_of_mem_spelled h hspelled
    exact ⟨by simp [indented, hrest], by simp [indented]⟩
  · revert row
    decide

/-! ## Modules -/

/-- No part of a module ends its last line. -/
theorem endsOpen_of_mem_parts (config : Config) (hooks : List Hook) :
    ∀ part ∈ config.parts hooks, EndsOpen part.toList := by
  have hraw : EndsOpen rawResponseType.toList := by
    unfold rawResponseType
    exact endsOpen_append (Text.endsOpen_of_ofList rfl rfl)
  have hloader : EndsOpen (keyLoaderType config.affixes).toList :=
    endsOpen_joinLines rfl (Text.endsOpen_of_ofList rfl rfl)
  have hopening : EndsOpen factoryOpening.toList :=
    endsOpen_joinLines rfl (Text.endsOpen_of_ofList rfl rfl)
  have hutilities : EndsOpen (infiniteUtilities config.affixes).toList :=
    endsOpen_joinLines rfl (Text.endsOpen_of_ofList rfl rfl)
  have hgenerator : EndsOpen keyGenerator.toList := by
    unfold keyGenerator
    exact endsOpen_append (Text.endsOpen_of_ofList rfl rfl)
  have hbrace : EndsOpen "\x7d".toList := Text.endsOpen_of_ofList rfl rfl
  have hbundle : EndsOpen (bundle hooks).toList := by
    refine endsOpen_joinLines ?_ hbrace
    rw [List.getLast?_append]
    rfl
  have htype : EndsOpen (bundleType config.affixes).toList :=
    endsOpen_append (Text.endsOpen_of_ofList rfl rfl)
  cases hr : config.rawResponse <;> cases hi : config.infiniteEnabled <;>
    cases ha : config.autogenKey <;>
    simp [Config.parts, hr, hi, ha, hraw, hloader, hopening, hutilities, hgenerator, hbundle, htype]

/-- The lines of a module are those of its parts. -/
theorem lines_assemble (config : Config) (hooks : List Hook) :
    Text.lines (config.assemble hooks).toList =
      (config.parts hooks).flatMap fun part => Text.lines part.toList :=
  lines_joinLines (endsOpen_of_mem_parts config hooks)

end QueryHooks
