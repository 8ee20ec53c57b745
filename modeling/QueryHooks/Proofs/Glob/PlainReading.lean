import QueryHooks.Glob.Parser
import QueryHooks.Proofs.Glob.Plain

/-!
# Reading plain globs

A plain pattern is read as its parts, one piece after the other.  Two stars are read at once, but as
two single stars, since a plain pattern has no slash; only the pattern `**` is read as a part that
spans folders.

Main results:

- Definition `PlainGlob.Adds`: a text adds a part, wherever it stands.
- Theorems `PlainGlob.Item.IsPlain.adds` and `PlainGlob.Piece.IsPlain.adds`: the pieces of plain
  patterns do so.
- Theorem `PlainGlob.parse_text`: plain patterns are patterns.
- Theorem `PlainGlob.isMatch_iff`: a plain pattern matches the names that it denotes.
- Theorem `PlainGlob.depth_glob_le`: plain patterns do not nest too deep.
-/

namespace QueryHooks.PlainGlob

open Glob (OpenGroup Reading readClass readParts)

/-! ## Classes -/

/-- A letter or digit is none of the characters with a meaning of their own. -/
theorem ne_of_isNameChar {c d : Char} (hc : isNameChar c = true) (hd : isNameChar d = false) :
    c ≠ d := by
  rintro rfl
  simp [hc] at hd

/-- Letters and digits can be in a name. -/
theorem isNameChar_of_isAlphanum {c : Char} (h : c.isAlphanum = true) : isNameChar c = true := by
  simp [isNameChar, h]

/-- A letter or digit in a class is a member. -/
theorem readClass_cons {c : Char} (hc : isNameChar c = true) (first : Bool)
    (ranges : List (Char × Char))
    (rest : List Char) :
    readClass first false ranges (c :: rest) = readClass false false ((c, c) :: ranges) rest := by
  have hbracket : c ≠ ']' := ne_of_isNameChar hc (by decide)
  have hhyphen : c ≠ '-' := ne_of_isNameChar hc (by decide)
  simp [readClass, hbracket, hhyphen]

/-- A member of a class adds the range from its first to its last character. -/
theorem readClass_member {member : Member} (h : member.IsPlain) (first : Bool)
    (ranges : List (Char × Char))
    (rest : List Char) :
    readClass first false ranges (member.text ++ rest) =
      readClass false false (member.ends :: ranges) rest := by
  cases member with
  | one c => exact readClass_cons (isNameChar_of_isAlphanum h) first ranges rest
  | range low high =>
    obtain ⟨hlow, hhigh, hle⟩ := h
    have hbracket : high ≠ ']' := ne_of_isNameChar (isNameChar_of_isAlphanum hhigh) (by decide)
    have hend : Glob.endRange high ((low, low) :: ranges) = .ok ((low, high) :: ranges) := by
      rw [Glob.endRange, if_neg (not_lt.2 hle)]
    rw [Member.text, List.cons_append, readClass_cons (isNameChar_of_isAlphanum hlow)]
    simp [readClass, hbracket, hend, Member.ends]

/-- The members of a class are read up to the closing bracket. -/
theorem readClass_members {members : List Member} (h : ∀ member ∈ members, member.IsPlain)
    {first : Bool} (hfirst : members = [] → first = false) (ranges : List (Char × Char))
    (rest : List Char) :
    readClass first false ranges (members.flatMap Member.text ++ ']' :: rest) =
      .ok (ranges.reverse ++ members.map Member.ends, rest) := by
  induction members generalizing first ranges with
  | nil => simp [readClass, hfirst rfl]
  | cons member members ih =>
    obtain ⟨hmember, hmembers⟩ := List.forall_mem_cons.1 h
    rw [List.flatMap_cons, List.append_assoc, readClass_member hmember, ih hmembers fun _ => rfl]
    simp

/-! ## Stars -/

/--
What was read last stands in the way of no star: it is no slash, and it begins no branch unless
nothing has been read of that branch.
-/
structure Steady (before? : Option Char) (reading : Reading) : Prop where
  ne_slash : before? ≠ some '/'
  parts_eq_nil : before? = some ',' ∨ before? = some '\x7b' → reading.parts = []

/-- Behind a character that is no slash and begins no branch, stars may follow. -/
theorem steady_of_notMem {c : Char} (h : c ∉ ['/', ',', '\x7b']) (reading : Reading) :
    Steady (some c) reading := by
  simp only [List.mem_cons, List.not_mem_nil, or_false, not_or] at h
  exact ⟨by simp [h.1], by simp [h.2.1, h.2.2]⟩

/--
Two stars that span folders where nothing stands in front of them: alone, or in front of a slash.
-/
def SpansFolders (text : List Char) : Prop :=
  ∃ rest, text = '*' :: '*' :: rest ∧ rest.head?.all (· == '/') = true

/-- Two stars that span no folders are two single stars. -/
theorem doubleStar_of_steady {before? : Option Char} {reading : Reading}
    (h : Steady before? reading)
    {rest : List Char} (hstars : reading.parts = [] → ¬SpansFolders ('*' :: '*' :: rest)) :
    reading.doubleStar before? rest.head? = ((reading.push .anyBytes).push .anyBytes, false) := by
  rw [Reading.doubleStar]
  by_cases hparts : reading.parts = []
  · have hnext : rest.head?.all (· == '/') = false :=
      Bool.eq_false_iff.2 fun hall => hstars hparts ⟨rest, rfl, hall⟩
    simp [hparts, hnext]
  · have hbegins : ¬(before? = some ',' ∨ before? = some '\x7b') :=
      fun hb => hparts (h.parts_eq_nil hb)
    rw [not_or] at hbegins
    simp [hparts, h.ne_slash, hbegins.1, hbegins.2]

/-- A star adds its part, also where it is read together with the star behind it. -/
theorem readParts_star {before? : Option Char} {reading : Reading} (h : Steady before? reading)
    {rest : List Char} (hstars : reading.parts = [] → ¬SpansFolders ('*' :: rest)) :
    readParts before? reading ('*' :: rest) =
      readParts (some '*') (reading.push .anyBytes) rest := by
  induction rest generalizing before? reading with
  | nil => simp [readParts]
  | cons c rest ih =>
    by_cases hc : c = '*'
    · subst hc
      have hnext : readParts (some '*') (reading.push .anyBytes) ('*' :: rest) =
          readParts (some '*') ((reading.push .anyBytes).push .anyBytes) rest :=
        ih (steady_of_notMem (by decide) _) fun hnil => absurd hnil (List.cons_ne_nil _ _)
      rw [readParts, doubleStar_of_steady h hstars, hnext]
      rfl
    · rw [readParts]
      rintro rest' hrest
      exact hc (List.cons.inj hrest).1

/-! ## Items -/

/-- Plain text has no slash. -/
theorem Item.IsPlain.slash_notMem {item : Item} (h : item.IsPlain) : '/' ∉ item.text := by
  cases item with
  | char c => simpa [text] using (ne_of_isNameChar h (by decide : isNameChar '/' = false)).symm
  | anyOne => simp [text]
  | anyText => simp [text]
  | charClass negated members =>
    have hmember (member : Member) (hmem : member ∈ members) : '/' ∉ member.text := by
      have hplain := h.2 member hmem
      have hslash {c : Char} (hc : c.isAlphanum = true) : '/' ≠ c :=
        (ne_of_isNameChar (isNameChar_of_isAlphanum hc) (by decide)).symm
      cases member with
      | one c => simpa [Member.text] using hslash hplain
      | range low high => simp [Member.text, hslash hplain.1, hslash hplain.2.1]
    cases negated <;> simpa [text] using hmember

/-- A character of a name stands for itself. -/
theorem readParts_char {c : Char} (h : isNameChar c = true) (before? : Option Char)
    (reading : Reading) (rest : List Char) :
    readParts before? reading (c :: rest) =
      readParts (some c) (reading.push (.literal c)) rest := by
  have hne {d : Char} (hd : isNameChar d = false) (heq : c = d) : False := ne_of_isNameChar h hd heq
  rw [readParts]
  · exact hne (by decide)
  · exact fun _ hc _ => hne (by decide) hc
  · exact hne (by decide)
  · exact hne (by decide)
  · exact hne (by decide)
  · exact hne (by decide)
  · exact hne (by decide)
  · exact fun hc _ => hne (by decide) hc
  · exact fun _ _ hc _ => hne (by decide) hc

/-- A plain class does not begin with a mark of negation. -/
theorem head?_flatMap_text {members : List Member} (hne : members ≠ [])
    (h : ∀ member ∈ members, member.IsPlain) (rest : List Char) :
    (members.flatMap Member.text ++ rest).head?.any (fun c => c == '!' || c == '^') = false := by
  cases members with
  | nil => exact absurd rfl hne
  | cons member members =>
    have hplain := h member List.mem_cons_self
    have hmark {c d : Char} (hc : c.isAlphanum = true) (hd : isNameChar d = false) : c ≠ d :=
      ne_of_isNameChar (isNameChar_of_isAlphanum hc) hd
    cases member with
    | one c => simp [Member.text, hmark hplain (by decide : isNameChar '!' = false),
        hmark hplain (by decide : isNameChar '^' = false)]
    | range low high => simp [Member.text, hmark hplain.1 (by decide : isNameChar '!' = false),
        hmark hplain.1 (by decide : isNameChar '^' = false)]

/-- A class adds its part. -/
theorem readParts_charClass {members : List Member} (hne : members ≠ [])
    (h : ∀ member ∈ members, member.IsPlain) (negated : Bool) (before? : Option Char)
    (reading : Reading) (rest : List Char) :
    readParts before? reading ((Item.charClass negated members).text ++ rest) =
      readParts (some ']') (reading.push (.byteClass negated (members.map Member.ends))) rest := by
  have hclass : readClass true false [] (members.flatMap Member.text ++ ']' :: rest) =
      .ok (members.map Member.ends, rest) :=
    readClass_members h (fun hnil => absurd hnil hne) [] rest
  have hmark := head?_flatMap_text hne h (']' :: rest)
  -- The equation of the class stands in the branches of the match, so each branch is compared with
  -- `hclass`.
  cases negated with
  | false =>
    have htext : (Item.charClass false members).text ++ rest =
        '[' :: (members.flatMap Member.text ++ ']' :: rest) := by
      simp [Item.text]
    rw [htext, readParts]
    split <;> rename_i hread <;> rw [hmark, if_neg (by simp), hclass] at hread <;> cases hread
    simp only [hmark]
  | true =>
    have htext : (Item.charClass true members).text ++ rest =
        '[' :: '!' :: (members.flatMap Member.text ++ ']' :: rest) := by
      simp [Item.text]
    have hmarked : ('!' :: (members.flatMap Member.text ++ ']' :: rest)).head?.any
        (fun c => c == '!' || c == '^') = true := by
      simp
    rw [htext, readParts]
    split <;> rename_i hread <;> rw [hmarked, if_pos rfl, List.tail_cons, hclass] at hread <;>
      cases hread
    simp only [hmarked]

/-! ## Texts that add a part -/

/-- A text adds a part to what has been read, wherever it stands. -/
def Adds (text : List Char) (part : Glob.Part) : Prop :=
  ∀ ⦃before? : Option Char⦄ ⦃reading : Reading⦄ ⦃rest : List Char⦄, Steady before? reading →
    (reading.parts = [] → ¬SpansFolders (text ++ rest)) →
      ∃ after?, Steady after? (reading.push part) ∧
        readParts before? reading (text ++ rest) = readParts after? (reading.push part) rest

/-- Texts that add their parts one by one add them one after the other. -/
theorem readParts_flatMap {α : Type} {text : α → List Char} {part : α → Glob.Part} {all : List α}
    (h : ∀ one ∈ all, Adds (text one) (part one)) {before? : Option Char} {reading : Reading}
    (hsteady : Steady before? reading) {rest : List Char}
    (hstars : reading.parts = [] → ¬SpansFolders (all.flatMap text ++ rest)) :
    ∃ after?, readParts before? reading (all.flatMap text ++ rest) =
      readParts after? ⟨(all.map part).reverse ++ reading.parts, reading.groups⟩ rest := by
  induction all generalizing before? reading with
  | nil => exact ⟨before?, rfl⟩
  | cons one all ih =>
    obtain ⟨hone, hall⟩ := List.forall_mem_cons.1 h
    rw [List.flatMap_cons, List.append_assoc] at hstars ⊢
    obtain ⟨between?, hbetween, hfirst⟩ := hone hsteady hstars
    obtain ⟨after?, hlater⟩ := ih hall hbetween fun hnil => absurd hnil (List.cons_ne_nil _ _)
    refine ⟨after?, ?_⟩
    rw [hfirst, hlater, List.map_cons, List.reverse_cons, List.append_assoc]
    rfl

/-- An item adds its part. -/
theorem Item.IsPlain.adds {item : Item} (h : item.IsPlain) : Adds item.text item.part := by
  intro before? reading rest hsteady hstars
  cases item with
  | char c =>
    have hne {d : Char} (hd : isNameChar d = false) : c ≠ d := ne_of_isNameChar h hd
    refine ⟨some c, steady_of_notMem ?_ _, readParts_char h before? reading rest⟩
    simp only [List.mem_cons, List.not_mem_nil, or_false, not_or]
    exact ⟨hne (by decide), hne (by decide), hne (by decide)⟩
  | anyOne =>
    refine ⟨some '?', steady_of_notMem (by decide) _, ?_⟩
    rw [text, List.singleton_append, readParts]
    rfl
  | anyText => exact ⟨some '*', steady_of_notMem (by decide) _, readParts_star hsteady hstars⟩
  | charClass negated members =>
    exact ⟨some ']', steady_of_notMem (by decide) _,
      readParts_charClass h.1 h.2 negated before? reading rest⟩

/-! ## Braces -/

/--
Where a text without slashes ends in front of some other character, its stars span no folders.
-/
theorem not_spansFolders {front : List Char} (hslash : '/' ∉ front) {c : Char} (hc : c ∉ ['/', '*'])
    (rest : List Char) : ¬SpansFolders (front ++ c :: rest) := by
  simp only [List.mem_cons, List.not_mem_nil, or_false, not_or] at hc
  rintro ⟨behind, htext, hall⟩
  match front, hslash with
  | [], _ => exact hc.2 (List.cons.inj htext).1
  | [_], _ => exact hc.2 (List.cons.inj (List.cons.inj htext).2).1
  | _ :: _ :: front, hslash =>
    obtain rfl : front ++ c :: rest = behind := (List.cons.inj (List.cons.inj htext).2).2
    cases front with
    | nil => exact hc.1 (by simpa using hall)
    | cons d front =>
      obtain rfl : d = '/' := by simpa using hall
      simp at hslash

/-- The text of items has no slash. -/
theorem slash_notMem_items {items : List Item} (h : ∀ item ∈ items, item.IsPlain) :
    '/' ∉ items.flatMap Item.text := by
  rw [List.mem_flatMap]
  rintro ⟨item, hitem, hslash⟩
  exact (h item hitem).slash_notMem hslash

/-- The alternatives of braces become the branches of the group that is open. -/
theorem readParts_alternatives {alternatives : List (List Item)} (hne : alternatives ≠ [])
    (h : ∀ items ∈ alternatives, items ≠ [] ∧ ∀ item ∈ items, item.IsPlain) {before? : Option Char}
    (hbefore : before? ≠ some '/') (group : OpenGroup) (groups : List OpenGroup)
    (rest : List Char) :
    readParts before? ⟨[], group :: groups⟩
        ([','].intercalate (alternatives.map (·.flatMap Item.text)) ++ '\x7d' :: rest) =
      readParts (some '\x7d') ⟨.group (group.branches.reverse.map List.reverse ++
        alternatives.map (·.map Item.part)) :: group.ahead, groups⟩ rest := by
  induction alternatives generalizing before? group with
  | nil => exact absurd rfl hne
  | cons items alternatives ih =>
    obtain ⟨⟨-, hitems⟩, halternatives⟩ := List.forall_mem_cons.1 h
    have hbranch {c : Char} (hc : c ∉ ['/', '*']) (behind : List Char) :
        ∃ after?, readParts before? ⟨[], group :: groups⟩ (items.flatMap Item.text ++ c :: behind) =
          readParts after? ⟨(items.map Item.part).reverse, group :: groups⟩ (c :: behind) := by
      have hsteady : Steady before? ⟨[], group :: groups⟩ := ⟨hbefore, fun _ => rfl⟩
      obtain ⟨after?, hread⟩ :=
        readParts_flatMap (fun item hitem => (hitems item hitem).adds) hsteady
        fun _ => not_spansFolders (slash_notMem_items hitems) hc behind
      exact ⟨after?, by rw [hread, List.append_nil]⟩
    -- An alternative ends in front of the closing brace or in front of a comma.
    cases alternatives with
    | nil =>
      obtain ⟨after?, hread⟩ := hbranch (c := '\x7d') (by decide) rest
      rw [List.map_singleton, List.intercalate_singleton, hread, readParts]
      simp [Reading.closeGroup]
    | cons next alternatives =>
      have htext : [','].intercalate ((items :: next :: alternatives).map (·.flatMap Item.text)) ++
          '\x7d' :: rest = items.flatMap Item.text ++
            ',' :: ([','].intercalate ((next :: alternatives).map (·.flatMap Item.text)) ++
              '\x7d' :: rest) := by
        simp [List.intercalate_cons_cons]
      obtain ⟨after?, hread⟩ := hbranch (c := ',') (by decide)
        ([','].intercalate ((next :: alternatives).map (·.flatMap Item.text)) ++ '\x7d' :: rest)
      have hcomma : Reading.nextBranch ⟨(items.map Item.part).reverse, group :: groups⟩ =
          ⟨[], { group with branches := (items.map Item.part).reverse :: group.branches } ::
            groups⟩ := rfl
      rw [htext, hread, readParts, hcomma, ih (List.cons_ne_nil _ _) halternatives (by decide)]
      simp

/-- Braces add a group of their alternatives, and an item adds its part. -/
theorem Piece.IsPlain.adds {piece : Piece} (h : piece.IsPlain) : Adds piece.text piece.part := by
  cases piece with
  | single item => exact Item.IsPlain.adds h
  | choice alternatives =>
    intro before? reading rest _ _
    refine ⟨some '\x7d', steady_of_notMem (by decide) _, ?_⟩
    have htext : (Piece.choice alternatives).text ++ rest = '\x7b' ::
        ([','].intercalate (alternatives.map (·.flatMap Item.text)) ++ '\x7d' :: rest) := by
      simp [text]
    rw [htext, readParts, Reading.openGroup, readParts_alternatives h.1 h.2 (by decide)]
    rfl

/-! ## Whole patterns -/

/-- The text of a piece begins with something other than a slash. -/
theorem Piece.IsPlain.exists_text_eq {piece : Piece} (h : piece.IsPlain) :
    ∃ c rest, piece.text = c :: rest ∧ c ≠ '/' := by
  cases piece with
  | choice alternatives => exact ⟨_, _, rfl, by decide⟩
  | single item =>
    cases item with
    | char c => exact ⟨_, _, rfl, ne_of_isNameChar h (by decide)⟩
    | anyOne => exact ⟨_, _, rfl, by decide⟩
    | anyText => exact ⟨_, _, rfl, by decide⟩
    | charClass negated members => exact ⟨_, _, rfl, by decide⟩

/-- Only a star is written with a star in front. -/
theorem Piece.IsPlain.eq_anyText {piece : Piece} (h : piece.IsPlain) {behind rest : List Char}
    (htext : piece.text ++ behind = '*' :: rest) : piece = .single .anyText ∧ behind = rest := by
  cases piece with
  | choice alternatives => simp [text] at htext
  | single item =>
    cases item with
    | char c =>
      obtain rfl : c = '*' := (List.cons.inj htext).1
      exact absurd h (by decide)
    | anyOne => simp [text, Item.text] at htext
    | anyText => exact ⟨rfl, (List.cons.inj htext).2⟩
    | charClass negated members => simp [text, Item.text] at htext

/-- The pattern `**` is the only plain one that begins with stars that span folders. -/
theorem eq_of_spansFolders {pieces : List Piece} (h : ∀ piece ∈ pieces, piece.IsPlain)
    (hspans : SpansFolders (pieces.flatMap Piece.text)) :
    pieces = [.single .anyText, .single .anyText] := by
  obtain ⟨rest, htext, hall⟩ := hspans
  cases pieces with
  | nil => simp at htext
  | cons first pieces =>
    obtain ⟨hfirst, hpieces⟩ := List.forall_mem_cons.1 h
    obtain ⟨rfl, hbehind⟩ := hfirst.eq_anyText htext
    cases pieces with
    | nil => simp at hbehind
    | cons second pieces =>
      obtain ⟨hsecond, hlater⟩ := List.forall_mem_cons.1 hpieces
      obtain ⟨rfl, rfl⟩ := hsecond.eq_anyText hbehind
      cases pieces with
      | nil => rfl
      | cons third pieces =>
        obtain ⟨c, more, hthird, hne⟩ := (hlater third List.mem_cons_self).exists_text_eq
        simp [hthird, hne] at hall

/-- The glob that a plain pattern is read as: the pattern `**` is taken to span folders. -/
def glob (plain : PlainGlob) : Glob where
  source := plain.text
  parts :=
    if plain.pieces = [.single .anyText, .single .anyText] then [.leadingFolders] else plain.parts

/-- A plain pattern is a pattern. -/
theorem parse_text (plain : PlainGlob) : Glob.parse plain.text = .ok plain.glob := by
  have hread : ∃ before?, readParts none {} (plain.pieces.flatMap Piece.text) =
      readParts before? ⟨plain.glob.parts.reverse, []⟩ [] := by
    by_cases hstars : plain.pieces = [.single .anyText, .single .anyText]
    · refine ⟨some '*', ?_⟩
      rw [glob, if_pos hstars, hstars]
      change readParts none {} ['*', '*'] = readParts (some '*') ⟨[.leadingFolders], []⟩ []
      simp [readParts, Reading.doubleStar, Reading.push]
    · have hsteady : Steady none {} := ⟨by decide, fun _ => rfl⟩
      have hspans : ¬SpansFolders (plain.pieces.flatMap Piece.text ++ []) := by
        rw [List.append_nil]
        exact fun hspans => hstars (eq_of_spansFolders plain.isPlain hspans)
      obtain ⟨after?, hread⟩ :=
        readParts_flatMap (fun piece hpiece => (plain.isPlain piece hpiece).adds) hsteady fun _ =>
          hspans
      refine ⟨after?, ?_⟩
      rw [glob, if_neg hstars, parts]
      simpa using hread
  obtain ⟨before?, hread⟩ := hread
  rw [Glob.parse, text, String.toList_ofList, hread, readParts]
  simp [Reading.inGroup, glob, text]

/-! ## Matching -/

theorem Piece.part_ne_leadingFolders (piece : Piece) : piece.part ≠ .leadingFolders := by
  cases piece with
  | choice alternatives => exact nofun
  | single item => cases item <;> exact nofun

/-- A plain pattern matches the names that it denotes. -/
theorem isMatch_iff (plain : PlainGlob) {name : String} (h : ∀ c ∈ name.toList, IsAscii c) :
    plain.glob.isMatch name = true ↔ name.toList ∈ plain.language := by
  rw [Glob.isMatch_iff_mem_language]
  by_cases hstars : plain.pieces = [.single .anyText, .single .anyText]
  · have hparts : plain.glob.parts = [.leadingFolders] := by rw [glob, if_pos hstars]
    have hall : name.toList ∈ plain.language := by
      rw [language, hstars]
      exact Language.mem_mul.2
        ⟨name.toList, trivial, [], ⟨[], trivial, [], rfl, rfl⟩, List.append_nil _⟩
    rw [Glob.language, hparts]
    exact iff_of_true trivial hall
  · have hparts : plain.glob.parts = plain.parts := by rw [glob, if_neg hstars]
    have hne : plain.glob.parts ≠ [.leadingFolders] := by
      rw [hparts, parts]
      intro hfolders
      obtain ⟨piece, -, hpiece⟩ := List.mem_map.1 (hfolders ▸ List.mem_singleton_self _)
      exact piece.part_ne_leadingFolders hpiece
    rw [Glob.language_of_ne hne, hparts, bytesOf_mem_partsLanguage_iff plain h]

/-! ## Depth -/

/-- Parts are as deep as the deepest of them. -/
theorem partsDepth_le {parts : List Glob.Part} {limit : Nat}
    (h : ∀ part ∈ parts, part.depth ≤ limit) :
    Glob.Part.partsDepth parts ≤ limit := by
  induction parts with
  | nil => exact Nat.zero_le limit
  | cons part parts ih =>
    obtain ⟨hpart, hparts⟩ := List.forall_mem_cons.1 h
    exact max_le hpart (ih hparts)

/-- Branches are one level deeper than their parts. -/
theorem branchesDepth_le {branches : List (List Glob.Part)} {limit : Nat}
    (h : ∀ branch ∈ branches, ∀ part ∈ branch, part.depth ≤ limit) :
    Glob.Part.branchesDepth branches ≤ 1 + limit := by
  induction branches with
  | nil => exact Nat.zero_le _
  | cons branch branches ih =>
    obtain ⟨hbranch, hbranches⟩ := List.forall_mem_cons.1 h
    refine max_le (Nat.add_le_add ?_ (partsDepth_le hbranch)) (ih hbranches)
    split <;> omega

/-- Items are at most two levels deep. -/
theorem Item.depth_part_le (item : Item) : item.part.depth ≤ 2 := by
  cases item with
  | char c => exact Nat.zero_le 2
  | anyOne => exact Nat.zero_le 2
  | anyText => exact Nat.le_succ 1
  | charClass negated members =>
    rw [part, Glob.Part.depth]
    split <;> omega

/-- Pieces are at most five levels deep. -/
theorem Piece.depth_part_le (piece : Piece) : piece.part.depth ≤ 5 := by
  cases piece with
  | single item => exact le_trans item.depth_part_le (by decide)
  | choice alternatives =>
    have hbranches : Glob.Part.branchesDepth (alternatives.map (·.map Item.part)) ≤ 1 + 2 := by
      refine branchesDepth_le ?_
      simp only [List.forall_mem_map]
      exact fun items _ item _ => item.depth_part_le
    rw [part, Glob.Part.depth]
    split <;> omega

/-- Plain patterns do not nest too deep. -/
theorem depth_glob_le (plain : PlainGlob) : plain.glob.depth ≤ Glob.maxDepth := by
  have hparts : Glob.Part.partsDepth plain.glob.parts ≤ 5 := by
    rw [glob]
    split
    · exact (by decide : Glob.Part.partsDepth [.leadingFolders] ≤ 5)
    · refine partsDepth_le ?_
      simp only [parts, List.forall_mem_map]
      exact fun piece _ => piece.depth_part_le
  rw [Glob.depth, Glob.maxDepth]
  omega

end QueryHooks.PlainGlob
