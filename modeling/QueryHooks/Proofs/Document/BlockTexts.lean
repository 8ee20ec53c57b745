import QueryHooks.Proofs.Document.BlockLines

/-!
# Strings that are kept in a block

A string of several lines is written as a block string.  The text that is read from it is written in
the same way again exactly if reading the block leaves out nothing: no line, no margin and no
carriage return.

Main results:

- Definition `keepsInBlock`: a string loses nothing in a block.
- Theorem `exists_read_of_keepsInBlock`: what is read from such a block is written in the same way
  again.
- Theorem `keepsInBlock_of_blockChars_eq`: nothing is lost if it is written in the same way again.
-/

namespace QueryHooks.Document

/-! ## Strings that are kept in a block -/

/--
A string of several lines is kept in a block: it has at least two lines, the first and the last are
not blank, one that is not blank is not indented, and none of those ends in a carriage return.
-/
def keepsInBlock (value : List Char) : Bool :=
  let rows := Text.lines value
  2 ≤ rows.length && rows.head?.any (!Text.isAllBlank ·) &&
    rows.getLast?.any (!Text.isAllBlank ·) &&
    commonIndentation? rows == some 0 &&
    rows.all fun row => Text.isAllBlank row || row.getLast? != some '\r'

/-- A line that is not blank is cut to one that is not shorter only if nothing is cut from it. -/
theorem eq_zero_of_cutRow?_length {count : Nat} {row cut : List Char}
    (hrow : Text.isAllBlank row = false) (hcut : cutRow? count row = some cut)
    (h : row.length ≤ cut.length) : row.getLast? ≠ some '\r' ∧ count = 0 := by
  rw [cutRow?, if_neg (by simp [hrow])] at hcut
  obtain ⟨gone, htext, rfl⟩ := dropBytes?_eq_some_iff.1 hcut
  have hlength := congrArg List.length htext
  rw [List.length_append] at hlength
  rcases Text.withoutReturn_cases row with ⟨hlast, hsame⟩ | hconcat
  · rw [hsame] at hlength
    have hnil : gone = [] := List.length_eq_zero_iff.1 (by omega)
    rw [hnil]
    exact ⟨hlast, rfl⟩
  · have hlonger := congrArg List.length hconcat
    rw [List.length_append, List.length_singleton] at hlonger
    omega

/-- A line is written in a block like another one only if it is the same or both are blank. -/
theorem eq_of_blockRow_eq {row other : List Char} (hrow : Text.isAllBlank row = false)
    (h : blockRow other = blockRow row) : other = row := by
  rw [blockRow, blockRow, if_neg (show ¬Text.isAllBlank row = true by simp [hrow])] at h
  split at h
  · exact absurd h (by simp)
  · exact escapeQuotes_inj (List.cons.inj (List.cons.inj h).2).2

/-- Where a line feed stands behind texts without line feeds, the texts are the same. -/
theorem append_lf_inj {row other rest later : List Char} (hrow : '\n' ∉ row) (hother : '\n' ∉ other)
    (h : other ++ '\n' :: later = row ++ '\n' :: rest) : other = row ∧ later = rest := by
  have hsplit := congrArg (Text.split '\n') h
  rw [Text.split_append, Text.split_append, Text.split_of_not_mem hrow,
    Text.split_of_not_mem hother,
    List.singleton_append, List.singleton_append] at hsplit
  obtain rfl := (List.cons.inj hsplit).1
  exact ⟨rfl, (List.cons.inj (List.append_cancel_left h)).2⟩

/-- Lines that are written in a block can be told apart. -/
theorem map_blockRow_eq {rows others : List (List Char)} (hrows : ∀ row ∈ rows, '\n' ∉ row)
    (hothers : ∀ row ∈ others, '\n' ∉ row) (h : others.flatMap blockLine = rows.flatMap blockLine) :
    others.map blockRow = rows.map blockRow := by
  induction rows generalizing others with
  | nil =>
    cases others with
    | nil => rfl
    | cons other others => simp [blockLine_eq] at h
  | cons row rows ih =>
    cases others with
    | nil => simp [blockLine_eq] at h
    | cons other others =>
      simp only [List.flatMap_cons, blockLine_eq, List.append_assoc, List.singleton_append] at h
      obtain ⟨hfirst, hlater⟩ := append_lf_inj (lf_not_mem_blockRow (hrows row List.mem_cons_self))
        (lf_not_mem_blockRow (hothers other List.mem_cons_self)) h
      rw [List.map_cons, List.map_cons, hfirst,
        ih (fun row hrow => hrows row (List.mem_cons_of_mem _ hrow))
          (fun row hrow => hothers row (List.mem_cons_of_mem _ hrow)) hlater]

/-- Cutting a row brings in no character. -/
theorem mem_of_mem_cutRow? {count : Nat} {row cut : List Char} (hcut : cutRow? count row = some cut)
    {c : Char} (h : c ∈ cut) : c ∈ row := by
  rw [cutRow?] at hcut
  split at hcut
  · rw [← Option.some.inj hcut] at h
    exact absurd h List.not_mem_nil
  · obtain ⟨gone, htext, _⟩ := dropBytes?_eq_some_iff.1 hcut
    refine Text.mem_of_mem_withoutReturn ?_
    rw [htext]
    exact List.mem_append_right _ h

/--
The lines between the blank ones around them end with a line that is not blank, if there are any.
-/
theorem dropOuter_isAllBlank_cases (rows : List (List Char)) :
    dropOuter Text.isAllBlank rows = [] ∨
      ∃ init last, dropOuter Text.isAllBlank rows = init ++ [last] ∧
        Text.isAllBlank last = false := by
  rw [dropOuter]
  generalize (rows.dropWhile Text.isAllBlank).reverse = inner
  cases hinner : inner.dropWhile Text.isAllBlank with
  | nil => exact .inl rfl
  | cons last behind =>
    have hhead := List.head?_dropWhile_not Text.isAllBlank inner
    rw [hinner] at hhead
    exact .inr ⟨behind.reverse, last, List.reverse_cons, by simpa using hhead⟩

/-- No lines are left out around those that begin and end with a line that is not blank. -/
theorem dropOuter_isAllBlank_of_ends {rows : List (List Char)}
    (hfirst : rows.head?.any (!Text.isAllBlank ·) = true)
    (hlast : rows.getLast?.any (!Text.isAllBlank ·) = true) :
    dropOuter Text.isAllBlank rows = rows := by
  have hkeep {rows : List (List Char)} (h : rows.head?.any (!Text.isAllBlank ·) = true) :
      rows.dropWhile Text.isAllBlank = rows := by
    cases rows with
    | nil => rfl
    | cons row rows =>
      have hrow : Text.isAllBlank row = false := by simpa using h
      rw [List.dropWhile_cons, if_neg (by simp [hrow])]
  rw [dropOuter, hkeep hfirst, hkeep (by rwa [List.head?_reverse]), List.reverse_reverse]

/-- Lines of which none is left out begin with a line that is not blank. -/
theorem head?_of_dropOuter_eq_self {rows : List (List Char)} (hne : rows ≠ [])
    (h : dropOuter Text.isAllBlank rows = rows) : rows.head?.any (!Text.isAllBlank ·) = true := by
  cases rows with
  | nil => exact absurd rfl hne
  | cons row rows =>
    cases hrow : Text.isAllBlank row with
    | false => simp [hrow]
    | true =>
      have hshort := (dropOuter_sublist Text.isAllBlank rows).length_le
      have hsame : dropOuter Text.isAllBlank (row :: rows) = dropOuter Text.isAllBlank rows := by
        rw [dropOuter, List.dropWhile_cons, if_pos hrow]
        rfl
      have hlength := congrArg List.length h
      rw [hsame, List.length_cons] at hlength
      omega

/-- The characters of texts below each other are those of the texts and line feeds. -/
theorem mem_unlines {c : Char} {rows : List (List Char)} (h : c ∈ Text.unlines rows) :
    c = '\n' ∨ ∃ row ∈ rows, c ∈ row := by
  induction rows with
  | nil => simp [Text.unlines] at h
  | cons row rows ih =>
    cases rows with
    | nil =>
      right
      exact ⟨row, List.mem_cons_self, by simpa [Text.unlines] using h⟩
    | cons next rows =>
      rw [Text.unlines_cons row (by simp), List.mem_append, List.mem_cons] at h
      rcases h with hrow | rfl | hlater
      · exact .inr ⟨row, List.mem_cons_self, hrow⟩
      · exact .inl rfl
      · rcases ih hlater with hlf | ⟨other, hother, hc⟩
        · exact .inl hlf
        · exact .inr ⟨other, List.mem_cons_of_mem _ hother, hc⟩

/-- A line feed stands between the first two of some lines. -/
theorem lf_mem_unlines {rows : List (List Char)} (h : 2 ≤ rows.length) :
    (Text.unlines rows).contains '\n' = true := by
  match rows, h with
  | row :: next :: later, _ =>
    rw [Text.unlines_cons _ (List.cons_ne_nil _ _)]
    simp

/-- Something is left of a line that is not blank when the common margin is cut. -/
theorem ne_nil_of_cutRow?_commonMargin {rows : List (List Char)} {row cut : List Char}
    (hmem : row ∈ rows) (hrow : Text.isAllBlank row = false)
    (hcut : cutRow? (commonMargin rows) row = some cut) : cut ≠ [] :=
  ne_nil_of_cutRow? hrow (commonMargin_le hmem hrow) hcut

/-- Lines are cut one by one. -/
theorem forall₂_of_mapM_cutRow? {count : Nat} {rows cuts : List (List Char)}
    (h : rows.mapM (cutRow? count) = some cuts) :
    List.Forall₂ (fun row cut => cutRow? count row = some cut) rows cuts := by
  induction rows generalizing cuts with
  | nil =>
    obtain rfl := Option.some.inj h
    exact .nil
  | cons row rows ih =>
    rw [List.mapM_cons] at h
    obtain ⟨cut, hcut, h⟩ := Option.bind_eq_some_iff.1 h
    obtain ⟨later, hlater, h⟩ := Option.bind_eq_some_iff.1 h
    obtain rfl := Option.some.inj h
    exact .cons hcut (ih hlater)

/-- What is left of some lines is left of one of them each. -/
theorem exists_row_of_mem_cuts {count : Nat} {rows cuts : List (List Char)} {cut : List Char}
    (h : List.Forall₂ (fun row cut => cutRow? count row = some cut) rows cuts) (hcut : cut ∈ cuts) :
    ∃ row ∈ rows, cutRow? count row = some cut := by
  induction h with
  | nil => exact absurd hcut List.not_mem_nil
  | cons hfirst _ ih =>
    rcases List.mem_cons.1 hcut with rfl | hlater
    · exact ⟨_, List.mem_cons_self, hfirst⟩
    · obtain ⟨row, hrow, hsome⟩ := ih hlater
      exact ⟨row, List.mem_cons_of_mem _ hrow, hsome⟩

/-- What is left of a line from which no margin is cut: all of it, unless it is blank. -/
def keptRow (row : List Char) : List Char :=
  if Text.isAllBlank row then [] else row

/-- A line that is kept in a block, where nothing is cut from it. -/
theorem cutRow?_zero_of_keeps {row : List Char}
    (h : Text.isAllBlank row = true ∨ row.getLast? ≠ some '\r') :
    cutRow? 0 row = some (keptRow row) ∧ Text.withoutReturn (keptRow row) = keptRow row ∧
      blockRow (keptRow row) = blockRow row := by
  cases hrow : Text.isAllBlank row with
  | true =>
    rw [cutRow?, keptRow, if_pos hrow, if_pos hrow, blockRow, blockRow, if_pos hrow]
    exact ⟨rfl, rfl, rfl⟩
  | false =>
    have hlast : row.getLast? ≠ some '\r' := h.resolve_left (by simp [hrow])
    rw [cutRow?, keptRow, if_neg (by simp [hrow]), if_neg (by simp [hrow]),
      Text.withoutReturn_of_ne hlast]
    exact ⟨by simp [dropBytes?], rfl, rfl⟩

/-- Lines that are kept in a block are all cut, to what is kept of them. -/
theorem mapM_cutRow?_zero {rows : List (List Char)}
    (h : ∀ row ∈ rows, Text.isAllBlank row = true ∨ row.getLast? ≠ some '\r') :
    rows.mapM (cutRow? 0) = some (rows.map keptRow) := by
  have hkept : ∀ row ∈ rows, cutRow? 0 row = (some row).map keptRow := fun row hrow =>
    (cutRow?_zero_of_keeps (h row hrow)).1
  have hall : rows.mapM some = some rows := by
    simpa using List.mapM_pure (m := Option) (l := rows) (f := id)
  rw [mapM_eq_map_mapM hkept, hall, Option.map_some]

/-- A string that is kept in a block is written in the same way when it has been read. -/
theorem exists_read_of_keepsInBlock {value : List Char} (hfits : fitsBlock value = true)
    (h : keepsInBlock value = true) :
    ∃ read, decodeBlock? (blockChars (Text.lines value)) = some read ∧ fitsBlock read = true ∧
      blockChars (Text.lines read) = blockChars (Text.lines value) := by
  have hmem {row : List Char} (hrow : row ∈ Text.lines value) := Text.mem_of_mem_lines hrow
  simp only [keepsInBlock, Bool.and_eq_true, decide_eq_true_eq, beq_iff_eq, List.all_eq_true,
    Bool.or_eq_true, bne_iff_ne] at h
  generalize Text.lines value = rows at h hmem
  obtain ⟨⟨⟨⟨htwo, hfirst⟩, hlast⟩, hmargin⟩, hreturns⟩ := h
  have hzero : commonMargin rows = 0 := by rw [commonMargin, hmargin, Option.getD_some]
  have hcuts := mapM_cutRow?_zero hreturns
  have hkept (row : List Char) (hrow : row ∈ rows) := cutRow?_zero_of_keeps (hreturns row hrow)
  have hchars {row : List Char} (hrow : row ∈ rows) {c : Char} (hc : c ∈ keptRow row) : c ∈ row :=
    mem_of_mem_cutRow? (hkept row hrow).1 hc
  have hread : decodeBlock? (blockChars rows) = some (Text.unlines (rows.map keptRow)) := by
    rw [decodeBlock?_blockChars fun row hrow => (hmem hrow).1,
      dropOuter_isAllBlank_of_ends hfirst hlast, hzero, hcuts]
    rfl
  have hlines : Text.lines (Text.unlines (rows.map keptRow)) = rows.map keptRow := by
    obtain ⟨last, hlast, hblank⟩ := Option.any_eq_true _ _ |>.1 hlast
    have hlastMem := List.mem_of_getLast? hlast
    have hne := ne_nil_of_cutRow?_commonMargin hlastMem (by simpa using hblank)
      (hzero ▸ (hkept last hlastMem).1)
    obtain ⟨init, rfl⟩ := List.getLast?_eq_some_iff.1 hlast
    have hlf {row : List Char} (hrow : row ∈ init ++ [last]) : '\n' ∉ keptRow row :=
      fun hc => (hmem hrow).1 (hchars hrow hc)
    rw [List.map_append, List.map_singleton, Text.lines_unlines_concat _ (hlf hlastMem) hne,
      List.map_map]
    rotate_left
    · exact List.forall_mem_map.2 fun row hrow => hlf (List.mem_append_left _ hrow)
    congr 1
    apply List.map_congr_left
    intro row hrow
    exact (hkept row (List.mem_append_left _ hrow)).2.1
  refine ⟨_, hread, ?_, ?_⟩
  · rw [fitsBlock, Bool.and_eq_true, List.all_eq_true] at hfits ⊢
    constructor
    · exact lf_mem_unlines (by rwa [List.length_map])
    · intro c hc
      rcases mem_unlines hc with rfl | ⟨row, hrow, hc⟩
      · decide
      · obtain ⟨line, hline, rfl⟩ := List.mem_map.1 hrow
        exact hfits.2 c ((hmem hline).2 c (hchars hline hc))
  · rw [hlines, blockChars, blockChars, List.flatMap_map]
    congr 1
    apply List.flatMap_congr
    intro row hrow
    rw [blockLine_eq, blockLine_eq, (hkept row hrow).2.2]

/-- A line that is written again like before is not cut, unless it is blank. -/
theorem eq_zero_of_blockRow_eq {count : Nat} {row cut line : List Char}
    (hrow : Text.isAllBlank row = false) (hcut : cutRow? count row = some cut)
    (hline : line.length ≤ cut.length) (h : blockRow line = blockRow row) :
    row.getLast? ≠ some '\r' ∧ count = 0 := by
  obtain rfl := eq_of_blockRow_eq hrow h
  exact eq_zero_of_cutRow?_length hrow hcut hline

/-- Lines that are written again like before, when they were cut and read, lost nothing. -/
theorem kept_of_map_blockRow_eq {count : Nat} {init cuts : List (List Char)} {last cut : List Char}
    (hcuts : List.Forall₂ (fun row cut => cutRow? count row = some cut) init cuts)
    (hcut : cutRow? count last = some cut) (hlast : Text.isAllBlank last = false)
    (h : (cuts.map Text.withoutReturn ++ [cut]).map blockRow = (init ++ [last]).map blockRow) :
    count = 0 ∧ ∀ row ∈ init ++ [last], Text.isAllBlank row = true ∨ row.getLast? ≠ some '\r' := by
  rw [List.map_append, List.map_append, List.map_map] at h
  obtain ⟨hinit, hbehind⟩ := List.append_inj' h rfl
  obtain ⟨hreturn, hzero⟩ :=
    eq_zero_of_blockRow_eq hlast hcut (le_refl _) (List.singleton_inj.1 hbehind)
  refine ⟨hzero, fun row hrow => ?_⟩
  cases hblank : Text.isAllBlank row with
  | true => exact .inl rfl
  | false =>
    right
    rcases List.mem_append.1 hrow with hrow | hrow
    · clear h hbehind
      induction hcuts with
      | nil => exact absurd hrow List.not_mem_nil
      | cons hfirst _ ih =>
        obtain ⟨hsame, hlater⟩ := List.cons.inj hinit
        rcases List.mem_cons.1 hrow with rfl | hrow
        · exact (eq_zero_of_blockRow_eq hblank hfirst (Text.length_withoutReturn_le _) hsame).1
        · exact ih hlater (List.mem_append_left _ hrow) hrow
    · obtain rfl := List.mem_singleton.1 hrow
      exact hreturn

/-- A string that is written in a block again like before is kept in it. -/
theorem keepsInBlock_of_blockChars_eq {value read : List Char}
    (hread : decodeBlock? (blockChars (Text.lines value)) = some read)
    (hfits : fitsBlock read = true)
    (h : blockChars (Text.lines read) = blockChars (Text.lines value)) :
    keepsInBlock value = true := by
  have hmem (row : List Char) (hrow : row ∈ Text.lines value) : '\n' ∉ row :=
    (Text.mem_of_mem_lines hrow).1
  have hrows := map_blockRow_eq hmem (fun row hrow => (Text.mem_of_mem_lines hrow).1)
    (List.cons.inj h).2
  have hlf : '\n' ∈ read := by
    rw [fitsBlock, Bool.and_eq_true] at hfits
    simpa using hfits.1
  rw [keepsInBlock]
  generalize Text.lines value = rows at hread hmem hrows ⊢
  rw [decodeBlock?_blockChars hmem] at hread
  obtain ⟨cuts, hcuts, rfl⟩ := Option.map_eq_some_iff.1 hread
  rcases dropOuter_isAllBlank_cases rows with hnil | ⟨init, last, hinner, hlast⟩
  · rw [hnil] at hcuts
    obtain rfl := Option.some.inj hcuts
    simp [Text.unlines] at hlf
  · have hsublist := dropOuter_sublist Text.isAllBlank rows
    rw [hinner] at hcuts hsublist
    have hlastMem : last ∈ rows := hsublist.subset (by simp)
    rw [List.mapM_append, List.mapM_cons, List.mapM_nil] at hcuts
    obtain ⟨cutInit, hcutInit, hcuts⟩ := Option.bind_eq_some_iff.1 hcuts
    obtain ⟨cutBehind, hcutBehind, hcuts⟩ := Option.bind_eq_some_iff.1 hcuts
    obtain ⟨cut, hcut, hcutBehind⟩ := Option.bind_eq_some_iff.1 hcutBehind
    obtain rfl := Option.some.inj hcutBehind
    obtain rfl := Option.some.inj hcuts
    have hcutInit := forall₂_of_mapM_cutRow? hcutInit
    have hcutLf {row cut : List Char} (hrow : row ∈ init ++ [last])
        (hsome : cutRow? (commonMargin rows) row = some cut) : '\n' ∉ cut :=
      fun hc => hmem row (hsublist.subset hrow) (mem_of_mem_cutRow? hsome hc)
    have hinitLf : ∀ row ∈ cutInit, '\n' ∉ row := by
      intro row hrow
      obtain ⟨line, hline, hsome⟩ := exists_row_of_mem_cuts hcutInit hrow
      exact hcutLf (List.mem_append_left _ hline) hsome
    have hlastLf : '\n' ∉ cut := hcutLf (by simp) hcut
    have hlines := Text.lines_unlines_concat hinitLf hlastLf
      (ne_nil_of_cutRow?_commonMargin hlastMem hlast hcut)
    -- As many lines are written as before, so none of them is left out.
    obtain rfl : init ++ [last] = rows := by
      apply hsublist.eq_of_length
      have hlength := congrArg List.length hrows
      simpa [hlines, hcutInit.length_eq] using hlength
    rw [hlines] at hrows
    obtain ⟨hzero, hreturns⟩ := kept_of_map_blockRow_eq hcutInit hcut hlast hrows
    simp only [Bool.and_eq_true, decide_eq_true_eq, beq_iff_eq, List.all_eq_true, Bool.or_eq_true,
      bne_iff_ne]
    refine ⟨⟨⟨⟨?_, head?_of_dropOuter_eq_self (by simp) hinner⟩, by simp [hlast]⟩, ?_⟩, hreturns⟩
    · cases init with
      | nil =>
        obtain rfl := List.forall₂_nil_left_iff.1 hcutInit
        simp only [List.nil_append, Text.unlines, List.intercalate_singleton] at hlf
        exact absurd hlf hlastLf
      | cons row init => simp
    · obtain ⟨least, hleast⟩ := exists_commonIndentation? hlastMem hlast
      rw [commonMargin, hleast, Option.getD_some] at hzero
      rw [hleast, hzero]

end QueryHooks.Document
