import QueryHooks.Proofs.Glob.Language
import QueryHooks.Proofs.Text.Letters

/-!
# Plain globs

Most patterns for names of operations are plain: they are made of letters, digits and underscores,
of `*` and `?`, of classes of letters and digits, and of braces around alternatives that have no
braces themselves.  What such a pattern denotes can be said in characters: a name has ASCII
characters only, so each of them is one byte.

Main results:

- Definition `PlainGlob`: the syntax of plain patterns.
- Definitions `PlainGlob.text` and `PlainGlob.parts`: how a plain pattern is written, and its parts.
- Definition `PlainGlob.language`: the names that a plain pattern denotes.
- Theorem `PlainGlob.bytesOf_mem_partsLanguage_iff`: the parts denote the bytes of these names.
-/

namespace QueryHooks

open Glob.Part (allBranchesVanish allVanish branchesLanguage classHolds partsLanguage)
open Text (SameUnder)

/-! ## Syntax -/

namespace PlainGlob

/-- A letter, a digit or an underscore. -/
def isNameChar (c : Char) : Bool :=
  c.isAlphanum || c == '_'

/-- What a class lists: a letter or digit, or all characters from one to another. -/
inductive Member where
  | one (c : Char)
  | range (low high : Char)
  deriving DecidableEq, Repr

/-- What stands for itself, for any one character, for any text, or for a character of a class. -/
inductive Item where
  | char (c : Char)
  | anyOne
  | anyText
  | charClass (negated : Bool) (members : List Member)
  deriving DecidableEq, Repr

/-- An item, or braces around alternatives. -/
inductive Piece where
  | single (item : Item)
  | choice (alternatives : List (List Item))
  deriving DecidableEq, Repr

/-- A letter or digit, or an ascending range of them. -/
def Member.IsPlain : Member → Prop
  | one c => c.isAlphanum = true
  | range low high => low.isAlphanum = true ∧ high.isAlphanum = true ∧ low ≤ high

/-- A class lists something, and a character is one of a name. -/
def Item.IsPlain : Item → Prop
  | char c => isNameChar c = true
  | anyOne => True
  | anyText => True
  | charClass _ members => members ≠ [] ∧ ∀ member ∈ members, member.IsPlain

/-- Braces have alternatives, none of which is empty. -/
def Piece.IsPlain : Piece → Prop
  | single item => item.IsPlain
  | choice alternatives =>
    alternatives ≠ [] ∧ ∀ items ∈ alternatives, items ≠ [] ∧ ∀ item ∈ items, item.IsPlain

instance : DecidablePred Member.IsPlain
  | .one c => inferInstanceAs (Decidable (c.isAlphanum = true))
  | .range low high =>
    inferInstanceAs (Decidable (low.isAlphanum = true ∧ high.isAlphanum = true ∧ low ≤ high))

instance : DecidablePred Item.IsPlain
  | .char c => inferInstanceAs (Decidable (isNameChar c = true))
  | .anyOne => isTrue trivial
  | .anyText => isTrue trivial
  | .charClass _ members =>
    inferInstanceAs (Decidable (members ≠ [] ∧ ∀ member ∈ members, member.IsPlain))

instance : DecidablePred Piece.IsPlain
  | .single item => inferInstanceAs (Decidable item.IsPlain)
  | .choice alternatives =>
    inferInstanceAs (Decidable
      (alternatives ≠ [] ∧ ∀ items ∈ alternatives, items ≠ [] ∧ ∀ item ∈ items, item.IsPlain))

end PlainGlob

/-- A pattern without folders, escapes and nested braces. -/
structure PlainGlob where
  pieces : List PlainGlob.Piece
  isPlain : ∀ piece ∈ pieces, piece.IsPlain

namespace PlainGlob

/-! ## Text and parts -/

def Member.text : Member → List Char
  | one c => [c]
  | range low high => [low, '-', high]

def Item.text : Item → List Char
  | char c => [c]
  | anyOne => ['?']
  | anyText => ['*']
  | charClass negated members =>
    '[' :: (if negated then ['!'] else []) ++ members.flatMap Member.text ++ [']']

def Piece.text : Piece → List Char
  | single item => item.text
  | choice alternatives =>
    '\x7b' :: [','].intercalate (alternatives.map (·.flatMap Item.text)) ++ ['\x7d']

/-- A plain pattern as it is written. -/
def text (glob : PlainGlob) : String :=
  String.ofList (glob.pieces.flatMap Piece.text)

/-- The first and the last character that a class takes for a member. -/
def Member.ends : Member → Char × Char
  | one c => (c, c)
  | range low high => (low, high)

def Item.part : Item → Glob.Part
  | char c => .literal c
  | anyOne => .anyByte
  | anyText => .anyBytes
  | charClass negated members => .byteClass negated (members.map Member.ends)

def Piece.part : Piece → Glob.Part
  | single item => item.part
  | choice alternatives => .group (alternatives.map (·.map Item.part))

/-- The parts that a plain pattern is read as, unless it is `**`. -/
def parts (glob : PlainGlob) : List Glob.Part :=
  glob.pieces.map Piece.part

/-! ## What plain patterns denote -/

/-- The texts of one character with a property. -/
def oneChar (holds : Char → Prop) : Language Char :=
  {text | ∃ c, holds c ∧ text = [c]}

/-- A member of a class covers a character. -/
def Member.Covers : Member → Char → Prop
  | one d, c => c = d
  | range low high, c => low ≤ c ∧ c ≤ high

/-- The texts that an item denotes. -/
def Item.language : Item → Language Char
  | char c => {[c]}
  | anyOne => oneChar fun _ => True
  | anyText => ⊤
  | charClass false members => oneChar fun c => ∃ member ∈ members, member.Covers c
  | charClass true members => oneChar fun c => ¬∃ member ∈ members, member.Covers c

/-- The texts that items denote one after the other. -/
def itemsLanguage (items : List Item) : Language Char :=
  (items.map Item.language).prod

/-- Braces denote the texts of all their alternatives. -/
def Piece.language : Piece → Language Char
  | single item => item.language
  | choice alternatives => (alternatives.map itemsLanguage).sum

/-- The names that a plain pattern denotes: all of a name has to be covered, piece by piece. -/
def language (glob : PlainGlob) : Language Char :=
  (glob.pieces.map Piece.language).prod

/-! ## Characters and bytes -/

/-- Whether a character is one byte. -/
def IsAscii (c : Char) : Prop :=
  c.toNat < 128

/-- Characters of names are ASCII. -/
theorem isAscii_of_isNameChar {c : Char} (h : isNameChar c = true) : IsAscii c := by
  rw [isNameChar, Bool.or_eq_true, Char.isAlphanum, Char.isAlpha, Bool.or_eq_true, Bool.or_eq_true,
    Text.isUpper_iff, Text.isLower_iff, Text.isDigit_iff, beq_iff_eq] at h
  rw [IsAscii]
  rcases h with ((h | h) | h) | rfl
  · omega
  · omega
  · omega
  · decide

/-- Letters and digits are ASCII. -/
theorem isAscii_of_isAlphanum {c : Char} (h : c.isAlphanum = true) : IsAscii c :=
  isAscii_of_isNameChar (by simp [isNameChar, h])

/-- An ASCII character is one byte. -/
theorem IsAscii.utf8EncodeChar_eq {c : Char} (h : IsAscii c) :
    String.utf8EncodeChar c = [c.toUInt8] := by
  have hval : c.val.toNat ≤ 127 := Nat.le_of_lt_succ h
  rw [String.utf8EncodeChar, if_pos hval]
  rfl

/-- This byte is its code point. -/
theorem IsAscii.toNat_toUInt8 {c : Char} (h : IsAscii c) : c.toUInt8.toNat = c.toNat :=
  Nat.mod_eq_of_lt (Nat.lt_trans h (by decide))

/-- Different ASCII characters are different bytes. -/
theorem IsAscii.toUInt8_inj {c d : Char} (hc : IsAscii c) (hd : IsAscii d) :
    c.toUInt8 = d.toUInt8 ↔ c = d := by
  rw [← UInt8.toNat_inj, hc.toNat_toUInt8, hd.toNat_toUInt8, Char.toNat_inj]

/-- Their order is that of their bytes. -/
theorem IsAscii.toUInt8_le_iff {c d : Char} (hc : IsAscii c) (hd : IsAscii d) :
    c.toUInt8 ≤ d.toUInt8 ↔ c ≤ d := by
  rw [UInt8.le_iff_toNat_le, hc.toNat_toUInt8, hd.toNat_toUInt8]
  rfl

/-- The bytes of ASCII characters are these characters one by one. -/
theorem bytesOf_eq_map {name : String} (h : ∀ c ∈ name.toList, IsAscii c) :
    Glob.bytesOf name = name.toList.map Char.toUInt8 := by
  rw [Glob.bytesOf, List.flatMap_def, List.map_congr_left fun c hc => (h c hc).utf8EncodeChar_eq,
    ← List.flatMap_def, List.map_eq_flatMap]

/-! ## Classes -/

theorem Member.IsPlain.isAscii_ends {member : Member} (h : member.IsPlain) :
    IsAscii member.ends.1 ∧ IsAscii member.ends.2 := by
  cases member with
  | one c => exact ⟨isAscii_of_isAlphanum h, isAscii_of_isAlphanum h⟩
  | range low high => exact ⟨isAscii_of_isAlphanum h.1, isAscii_of_isAlphanum h.2.1⟩

/-- A member of a class covers what lies between its ends. -/
theorem Member.covers_iff {member : Member} {c : Char} :
    member.Covers c ↔ member.ends.1 ≤ c ∧ c ≤ member.ends.2 := by
  cases member with
  | one d => exact ⟨fun h => h ▸ ⟨le_refl c, le_refl c⟩, fun h => le_antisymm h.2 h.1⟩
  | range low high => exact Iff.rfl

/-- A range of ASCII characters is one range of bytes. -/
theorem byteRanges_of_isAscii {low high : Char} (hlow : IsAscii low) (hhigh : IsAscii high) :
    Glob.Part.byteRanges low high = [(low.toUInt8, high.toUInt8)] := by
  rw [Glob.Part.byteRanges]
  split
  · rename_i heq
    rw [hlow.utf8EncodeChar_eq, ← heq]
    rfl
  · rw [hlow.utf8EncodeChar_eq, hhigh.utf8EncodeChar_eq]
    rfl

/-- A class holds the bytes of the characters that its members cover. -/
theorem classHolds_false_iff {members : List Member} (h : ∀ member ∈ members, member.IsPlain)
    {c : Char} (hc : IsAscii c) :
    classHolds false (members.map Member.ends) c.toUInt8 = true ↔
      ∃ member ∈ members, member.Covers c := by
  rw [classHolds, Bool.false_bne, List.any_map, List.any_eq_true]
  refine exists_congr fun member => and_congr_right fun hmember => ?_
  obtain ⟨hlow, hhigh⟩ := (h member hmember).isAscii_ends
  change (Glob.Part.byteRanges member.ends.1 member.ends.2).any _ = true ↔ _
  rw [byteRanges_of_isAscii hlow hhigh, Member.covers_iff, ← hlow.toUInt8_le_iff hc,
    ← hc.toUInt8_le_iff hhigh]
  simp

/-- A negated class holds the bytes of all others. -/
theorem classHolds_true_iff {members : List Member} (h : ∀ member ∈ members, member.IsPlain)
    {c : Char} (hc : IsAscii c) :
    classHolds true (members.map Member.ends) c.toUInt8 = true ↔
      ¬∃ member ∈ members, member.Covers c := by
  rw [← classHolds_false_iff h hc, classHolds, classHolds, Bool.true_bne, Bool.false_bne,
    Bool.not_eq_true', Bool.not_eq_true]

/-! ## The same names in bytes -/

/-- A language of texts and one of bytes agree on ASCII texts. -/
abbrev SameInBytes (language : Language Char) (bytes : Language UInt8) : Prop :=
  SameUnder Char.toUInt8 IsAscii language bytes

/-- An item means the same in characters and in bytes. -/
theorem Item.IsPlain.sameInBytes {item : Item} (h : item.IsPlain) :
    SameInBytes item.language item.part.language := by
  cases item with
  | char c =>
    intro text htext
    have hc : IsAscii c := isAscii_of_isNameChar h
    change text.map Char.toUInt8 = String.utf8EncodeChar c ↔ text = [c]
    rw [hc.utf8EncodeChar_eq, List.map_eq_singleton_iff]
    constructor
    · rintro ⟨d, rfl, hd⟩
      rw [((htext d (List.mem_singleton_self d)).toUInt8_inj hc).1 hd]
    · rintro rfl
      exact ⟨c, rfl, rfl⟩
  | anyOne => exact SameUnder.oneOf fun c _ => iff_of_true rfl trivial
  | anyText => exact SameUnder.top
  | charClass negated members =>
    cases negated with
    | false => exact SameUnder.oneOf fun c hc => classHolds_false_iff h.2 hc
    | true => exact SameUnder.oneOf fun c hc => classHolds_true_iff h.2 hc

/-- So do items one after the other. -/
theorem sameInBytes_items {items : List Item} (h : ∀ item ∈ items, item.IsPlain) :
    SameInBytes (itemsLanguage items) (partsLanguage (items.map Item.part)) := by
  induction items with
  | nil => exact SameUnder.one
  | cons item items ih =>
    obtain ⟨hitem, hitems⟩ := List.forall_mem_cons.1 h
    rw [itemsLanguage, List.map_cons, List.prod_cons, List.map_cons, partsLanguage]
    exact hitem.sameInBytes.mul (ih hitems)

/-- Items do not vanish. -/
theorem Item.vanishes_part (item : Item) : item.part.vanishes = false := by
  cases item <;> rfl

theorem allVanish_items {items : List Item} (h : items ≠ []) :
    allVanish (items.map Item.part) = false := by
  cases items with
  | nil => exact absurd rfl h
  | cons item items => rw [List.map_cons, allVanish, Item.vanishes_part, Bool.false_and]

/-- So do alternatives. -/
theorem sameInBytes_alternatives {alternatives : List (List Item)}
    (h : ∀ items ∈ alternatives, items ≠ [] ∧ ∀ item ∈ items, item.IsPlain) :
    SameInBytes (alternatives.map itemsLanguage).sum
      (branchesLanguage (alternatives.map (·.map Item.part))) := by
  induction alternatives with
  | nil => exact SameUnder.zero
  | cons items alternatives ih =>
    obtain ⟨⟨hne, hitems⟩, halternatives⟩ := List.forall_mem_cons.1 h
    rw [List.map_cons, List.sum_cons, List.map_cons, branchesLanguage, allVanish_items hne,
      if_neg (by simp)]
    exact (sameInBytes_items hitems).add (ih halternatives)

/-- A piece means the same in characters and in bytes. -/
theorem Piece.IsPlain.sameInBytes {piece : Piece} (h : piece.IsPlain) :
    SameInBytes piece.language piece.part.language := by
  cases piece with
  | single item => exact Item.IsPlain.sameInBytes h
  | choice alternatives =>
    -- The first alternative has something to match, so the group does not vanish.
    have hremains : allBranchesVanish (alternatives.map (·.map Item.part)) = false := by
      cases alternatives with
      | nil => exact absurd rfl h.1
      | cons items alternatives =>
        rw [List.map_cons, allBranchesVanish, allVanish_items (h.2 items List.mem_cons_self).1,
          Bool.false_and]
    rw [Piece.part, Glob.Part.language, hremains, if_neg (by simp)]
    exact sameInBytes_alternatives h.2

/-- The parts of pieces denote the bytes of the texts that the pieces denote. -/
theorem sameInBytes_pieces {pieces : List Piece} (h : ∀ piece ∈ pieces, piece.IsPlain) :
    SameInBytes (pieces.map Piece.language).prod (partsLanguage (pieces.map Piece.part)) := by
  induction pieces with
  | nil => exact SameUnder.one
  | cons piece pieces ih =>
    obtain ⟨hpiece, hpieces⟩ := List.forall_mem_cons.1 h
    rw [List.map_cons, List.prod_cons, List.map_cons, partsLanguage]
    exact hpiece.sameInBytes.mul (ih hpieces)

/-- The parts of a plain pattern denote the bytes of the names that the pattern denotes. -/
theorem bytesOf_mem_partsLanguage_iff (glob : PlainGlob) {name : String}
    (h : ∀ c ∈ name.toList, IsAscii c) :
    Glob.bytesOf name ∈ partsLanguage glob.parts ↔ name.toList ∈ glob.language := by
  rw [bytesOf_eq_map h]
  exact sameInBytes_pieces glob.isPlain name.toList h

end PlainGlob

end QueryHooks
