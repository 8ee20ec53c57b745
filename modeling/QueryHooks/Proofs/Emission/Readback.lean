import QueryHooks.Proofs.Emission.Landmarks
import QueryHooks.Proofs.Emission.Ownership

/-!
# Reading hooks back from a module

The lines of the hooks stand between two lines that are found nowhere else in a module.  The last
line of a hook is a closing brace, which no other line of a hook is, so the sources of the hooks can
be read back.

Main results:

- Definition `bundleLines`: the lines between the two.
- Theorem `bundleLines_assemble`: these are the lines of the hooks, with commas between them.
- Definition `readSources`: reading sources back from lines.
- Theorem `readSources_spelled`: what is read back are the sources of the hooks.
- Theorem `bundle_lines_spell_sources`: a module determines the sources of its hooks.
-/

namespace QueryHooks

open Text (IsRow)

/-! ## The lines around the hooks -/

/-- The line in front of the hooks. -/
def bundleOpening : String :=
  "    ...sdk,"

/-- The line behind the hooks. -/
def bundleClosing : String :=
  "  \x7d;"

/--
The lines of a module strictly between the line in front of the hooks and the one behind them.
-/
def bundleLines (content : String) : List (List Char) :=
  ((Text.lines content.toList).dropWhile (· ≠ bundleOpening.toList)).tail.takeWhile
    (· ≠ bundleClosing.toList)

/-- A line that is neither of the two. -/
def IsAside (row : List Char) : Prop :=
  row ≠ bundleOpening.toList ∧ row ≠ bundleClosing.toList

instance (row : List Char) : Decidable (IsAside row) :=
  inferInstanceAs (Decidable (row ≠ bundleOpening.toList ∧ row ≠ bundleClosing.toList))

/-- A row without landmark is neither line around the hooks. -/
theorem IsUnmarked.isAside {row : List Char} (h : IsUnmarked row) : IsAside row := by
  constructor
  · rintro rfl
    exact h.not_isLandmark (by decide)
  · rintro rfl
    exact h.not_isLandmark (by decide)

/-- A row that begins unlike both of the two lines is neither. -/
theorem isAside_of_beginning {landmark row : List Char} (h : landmark <+: row)
    (hopening : ¬landmark <+: bundleOpening.toList)
    (hclosing : ¬landmark <+: bundleClosing.toList) :
    IsAside row := by
  constructor
  · rintro rfl
    exact hopening h
  · rintro rfl
    exact hclosing h

/-- The row that declares a helper is neither line around the hooks. -/
theorem isAside_of_helper {affixes : Affixes} {helper : Helper} {row : List Char}
    (h : (helper.head affixes).toList <+: row) : IsAside row := by
  have hbegins := (helper.begins_with_landmark affixes).trans h
  cases helper with
  | rawResponse | keyLoader | utilities | keyGenerator =>
    exact isAside_of_beginning hbegins (by decide) (by decide)

variable {config : Config} {hooks : List Hook}

/-- No row in front of the bundle is one of the lines around the hooks. -/
theorem isAside_of_mem_partsBefore (haffixes : config.affixes.IsSingleLine) :
    ∀ row ∈ config.partsBefore.flatMap fun part => Text.lines part.toList, IsAside row := by
  intro row hrow
  obtain ⟨part, hpart, hmem⟩ := List.mem_flatMap.1 hrow
  rcases Config.mem_partsBefore.1 hpart with rfl | ⟨helper, _, rfl⟩
  · exact (isUnmarked_of_mem_factoryOpening row hmem).isAside
  · obtain ⟨first, unmarked, hlines, hdeclares, hunmarked⟩ := helper.lines_part haffixes
    rw [hlines, List.mem_cons] at hmem
    rcases hmem with rfl | hmem
    · exact isAside_of_helper hdeclares.begins
    · exact (hunmarked row hmem).isAside

/-- The lines of a module are those of its hooks between the two lines, and others around these. -/
theorem lines_assemble_eq (haffixes : config.affixes.IsSingleLine)
    (h : ∀ hook ∈ hooks, hook.IsTidy) :
    ∃ before after, Text.lines (config.assemble hooks).toList =
        before ++ bundleOpening.toList ::
          (spelled (hooks.map Hook.indentedRows) ++ bundleClosing.toList :: after) ∧
      (∀ row ∈ before, IsAside row) ∧ ∀ row ∈ after, IsAside row := by
  have hbefore := isAside_of_mem_partsBefore haffixes
  refine ⟨(config.partsBefore.flatMap fun part => Text.lines part.toList) ++
    ["  return \x7b".toList], [['\x7d'], (bundleType config.affixes).toList], ?_, ?_, ?_⟩
  · have hend : [bundle hooks, bundleType config.affixes].flatMap
      (fun part => Text.lines part.toList) =
        Text.lines (bundle hooks).toList ++ Text.lines (bundleType config.affixes).toList := by
      rw [List.flatMap_cons, List.flatMap_singleton]
    rw [lines_assemble, Config.parts_eq, List.flatMap_append, hend, lines_bundle h,
      lines_bundleType haffixes]
    simp only [List.append_assoc, List.cons_append, List.nil_append]
    rfl
  · rw [List.forall_mem_append, List.forall_mem_singleton]
    exact ⟨hbefore, by decide⟩
  · rw [List.forall_mem_cons, List.forall_mem_singleton]
    have htype : Helper.keyLoader.landmark <+: (bundleType config.affixes).toList := by
      simp [bundleType, Helper.landmark]
    exact ⟨by decide, isAside_of_beginning htype (by decide) (by decide)⟩

/--
The lines of a module between the two lines are those of its hooks, and each of the two is found
once.
-/
theorem bundleLines_assemble (haffixes : config.affixes.IsSingleLine)
    (h : ∀ hook ∈ hooks, hook.IsTidy) :
    bundleLines (config.assemble hooks) = spelled (hooks.map Hook.indentedRows) ∧
      (Text.lines (config.assemble hooks).toList).count bundleOpening.toList = 1 ∧
      (Text.lines (config.assemble hooks).toList).count bundleClosing.toList = 1 := by
  obtain ⟨before, after, hlines, hbefore, hafter⟩ := lines_assemble_eq haffixes h
  have hhooks : ∀ row ∈ spelled (hooks.map Hook.indentedRows), IsAside row := fun row hrow =>
    (isUnmarked_of_mem_spelled h hrow).isAside
  have hdrop : ∀ row ∈ before, decide (row ≠ bundleOpening.toList) = true := fun row hrow => by
    simpa using (hbefore row hrow).1
  have htake : ∀ row ∈ spelled (hooks.map Hook.indentedRows),
      decide (row ≠ bundleClosing.toList) = true := fun row hrow => by
    simpa using (hhooks row hrow).2
  have hne : bundleOpening.toList ≠ bundleClosing.toList := by decide
  refine ⟨?_, ?_, ?_⟩
  · rw [bundleLines, hlines, List.dropWhile_append_of_pos hdrop,
      List.dropWhile_cons_of_neg (by simp),
      List.tail_cons, List.takeWhile_append_of_pos htake, List.takeWhile_cons_of_neg (by simp),
      List.append_nil]
  · have hcount (rows : List (List Char)) (hrows : ∀ row ∈ rows, IsAside row) :
        rows.count bundleOpening.toList = 0 :=
      List.count_eq_zero.2 fun hmem => (hrows _ hmem).1 rfl
    rw [hlines]
    simp [hcount _ hbefore, hcount _ hhooks, hcount _ hafter, hne.symm]
  · have hcount (rows : List (List Char)) (hrows : ∀ row ∈ rows, IsAside row) :
        rows.count bundleClosing.toList = 0 :=
      List.count_eq_zero.2 fun hmem => (hrows _ hmem).2 rfl
    rw [hlines]
    simp [hcount _ hbefore, hcount _ hhooks, hcount _ hafter, hne]

/-! ## Reading back -/

/-- The last line of a hook in the bundle, with a comma or without one. -/
def IsHookClosing (row : List Char) : Prop :=
  row = indented ['\x7d'] ∨ row = indented ['\x7d', ',']

instance (row : List Char) : Decidable (IsHookClosing row) :=
  inferInstanceAs (Decidable (row = indented ['\x7d'] ∨ row = indented ['\x7d', ',']))

/--
The sources that are spelled by some lines, where `current` has the rows of the hook that is open.
-/
def readSources (current : List (List Char)) : List (List Char) → List String
  | [] => []
  | row :: rows =>
    if IsHookClosing row then
      String.ofList (Text.unlines (current ++ [['\x7d']])) :: readSources [] rows
    else readSources (current ++ [row.drop 4]) rows

/-- Rows that close no hook are put behind those of the hook that is open. -/
theorem readSources_indented {rows : List (List Char)}
    (h : ∀ row ∈ rows, ¬IsHookClosing (indented row)) (current later : List (List Char)) :
    readSources current (rows.map indented ++ later) = readSources (current ++ rows) later := by
  induction rows generalizing current with
  | nil => simp
  | cons row rows ih =>
    have hrow := h row List.mem_cons_self
    have hlater := ih (fun other hother => h other (List.mem_cons_of_mem _ hother))
      (current ++ [row])
    have hdrop : (indented row).drop 4 = row := rfl
    rw [List.map_cons, List.cons_append, readSources, if_neg hrow, hdrop, hlater]
    simp

/-- The rows of a hook that stand in front of its closing brace. -/
def Hook.openRows (hook : Hook) : List (List Char) :=
  (hook.name ++ "(" ++ hook.signature ++ ") \x7b").toList :: hook.body.map String.toList

theorem Hook.rows_eq (hook : Hook) : hook.rows = hook.openRows ++ [['\x7d']] :=
  rfl

/-- A tidy hook is closed by its last row only. -/
theorem Hook.IsTidy.not_isHookClosing {hook : Hook} (h : hook.IsTidy) :
    ∀ row ∈ hook.openRows, ¬IsHookClosing (indented row) := by
  intro row hrow
  rcases List.mem_cons.1 hrow with rfl | hbody
  · obtain ⟨rest, hname⟩ := h.opening
    simp [IsHookClosing, indented, ← hname]
  · obtain ⟨line, hline, rfl⟩ := List.mem_map.1 hbody
    obtain ⟨rest, hrest⟩ := (h.body line hline).2
    simp [IsHookClosing, indented, ← hrest]

/-- A hook is read up to its closing brace, and then the next one is. -/
theorem readSources_hook {hook : Hook} (h : hook.IsTidy) {closing : List Char}
    (hclosing : IsHookClosing closing) (later : List (List Char)) :
    readSources [] (hook.openRows.map indented ++ closing :: later) =
      hook.source :: readSources [] later := by
  rw [readSources_indented h.not_isHookClosing, readSources, if_pos hclosing, List.nil_append,
    ← Hook.rows_eq, ← Hook.toList_source h.body_ne_nil, String.ofList_toList]

/-- What is read back from the lines of hooks are their sources. -/
theorem readSources_spelled (h : ∀ hook ∈ hooks, hook.IsTidy) :
    readSources [] (spelled (hooks.map Hook.indentedRows)) = hooks.map Hook.source := by
  induction hooks with
  | nil => rfl
  | cons hook hooks ih =>
    have hhook := h hook List.mem_cons_self
    have hlater := ih fun other hother => h other (List.mem_cons_of_mem _ hother)
    have hrows : hook.indentedRows = hook.openRows.map indented ++ [indented ['\x7d']] := by
      rw [Hook.indentedRows, hhook.lines_source, Hook.rows_eq, List.map_append]
      rfl
    cases hooks with
    | nil =>
      have hread := readSources_hook hhook (.inl rfl) []
      simpa [spelled, hrows, readSources] using hread
    | cons next hooks =>
      have hread := readSources_hook hhook (.inr rfl)
        (spelled ((next :: hooks).map Hook.indentedRows))
      rw [List.map_cons, spelled_cons _ (by simp), hrows, closeWithComma_concat, List.append_assoc]
      rw [hlater] at hread
      exact hread

/-! ## Emitted modules -/

/--
The lines of an emitted module between the two lines around its hooks are the lines of their
sources, each indented by four spaces and with one comma behind the last line of every hook but the
last.  The sources can be read back from them, so modules with the same content have the same
sources.
-/
theorem bundle_lines_spell_sources {options : Options} {config : Config}
    (hconfig : Config.ofOptions options = .ok config) {operations : List Operation}
    (hoperations : ∀ operation ∈ operations, operation.IsSingleLine) {hooks : List Hook}
    {module : Module} (hhooks : ((Emitter.mk config {}).recordAll operations).hooks = .ok hooks)
    (hemit : ((Emitter.mk config {}).recordAll operations).emit = .ok module) :
    bundleLines module.content =
        spelled (hooks.map fun hook => (Text.lines hook.source.toList).map indented) ∧
      (Text.lines module.content.toList).count bundleOpening.toList = 1 ∧
      (Text.lines module.content.toList).count bundleClosing.toList = 1 ∧
      readSources [] (bundleLines module.content) = hooks.map Hook.source ∧
      ∀ (others : List Operation) (hooksOfOthers : List Hook) (another : Module),
        (∀ operation ∈ others, operation.IsSingleLine) →
        ((Emitter.mk config {}).recordAll others).hooks = .ok hooksOfOthers →
        ((Emitter.mk config {}).recordAll others).emit = .ok another →
        another.content = module.content →
          hooksOfOthers.map Hook.source = hooks.map Hook.source := by
  have haffixes := (Config.reflects_of_ofOptions hconfig).isSingleLine
  have htidy (recorded : List Operation)
      (hrecorded : ∀ operation ∈ recorded, operation.IsSingleLine)
      (generated : List Hook)
      (hgenerated : ((Emitter.mk config {}).recordAll recorded).hooks = .ok generated) :
      ∀ hook ∈ generated, hook.IsTidy := by
    obtain ⟨rfl, _⟩ := Emitter.hooks_eq_ok_iff.1 hgenerated
    intro hook hhook
    refine Config.isTidy_of_mem_hooksFor haffixes hrecorded ?_
    simpa [Emitter.recordedHooks, Emitter.recordAll] using hhook
  have hhere := htidy operations hoperations hooks hhooks
  obtain rfl := Emitter.eq_of_emit hhooks hemit
  obtain ⟨hlines, hopening, hclosing⟩ := bundleLines_assemble haffixes hhere
  refine ⟨hlines, hopening, hclosing, ?_, ?_⟩
  · exact (congrArg (readSources []) hlines).trans (readSources_spelled hhere)
  · intro others hooksOfOthers another hothers hhooksOfOthers hanother hcontent
    have hthere := htidy others hothers hooksOfOthers hhooksOfOthers
    obtain rfl := Emitter.eq_of_emit hhooksOfOthers hanother
    have hlinesOfOthers := (bundleLines_assemble haffixes hthere).1
    have hcontent : config.assemble hooksOfOthers = config.assemble hooks := hcontent
    rw [← readSources_spelled hthere, ← readSources_spelled hhere, ← hlines, ← hlinesOfOthers,
      hcontent]

/-- Two queries, the second of which has a variable that has to be given. -/
def userAndPosts : List Operation :=
  [{ kind := .query
     name := "user"
     resultType := "UserQuery"
     variablesType := "UserQueryVariables"
     declared := []
     distinct := List.nodup_nil },
    { kind := .query
      name := "posts_of"
      resultType := "PostsOfQuery"
      variablesType := "PostsOfQueryVariables"
      declared := [⟨"id", .named "ID" false, none⟩]
      distinct := List.nodup_singleton "id" }]

/-- The hooks of the two queries without any options. -/
def hooksOfUserAndPosts : List Hook :=
  userAndPosts.map fun operation => Hook.standard operation {}

/-- The sources of both hooks are read back from their module. -/
theorem readSources_userAndPosts :
    Config.ofOptions {} = .ok {} ∧ (∀ operation ∈ userAndPosts, operation.IsSingleLine) ∧
      readSources [] (bundleLines (({} : Config).assemble hooksOfUserAndPosts)) =
        hooksOfUserAndPosts.map Hook.source := by
  have hconfig : Config.ofOptions {} = .ok {} := rfl
  have hoperations : ∀ operation ∈ userAndPosts, operation.IsSingleLine := by
    intro operation hoperation
    rcases List.mem_pair.1 hoperation with rfl | rfl
    · exact ⟨by decide, by decide, by decide⟩
    · exact ⟨by decide, by decide, by decide⟩
  have hhooks : ((Emitter.mk {} {}).recordAll userAndPosts).hooks = .ok hooksOfUserAndPosts := by
    decide
  have hread := bundle_lines_spell_sources hconfig hoperations hhooks
    (by rw [Emitter.emit, hhooks]; rfl)
  exact ⟨hconfig, hoperations, hread.2.2.2.1⟩

end QueryHooks
