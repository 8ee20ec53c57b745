import QueryHooks.Glob.Matching
import QueryHooks.Proofs.Text.Languages

/-!
# What globs denote

Each part of a glob denotes a language of bytes, a sequence of parts the product of the languages of
its parts, and a group the union of those of its branches.  A glob matches a name exactly if the
bytes of the name are in the language of its parts.  The tables of the matching are read as
languages too: a table tells which suffixes of the name are in a language.

Main results:

- Definition `Glob.language`: what a glob denotes.
- Definition `Table.Tells`: a table says of each suffix of a name whether it is in a language.
- Theorem `Part.tells_before`: a part turns a table for a language into one for the product.
- Theorem `isMatch_iff_mem_language`: a glob matches the names whose bytes are in its language.
-/

namespace QueryHooks.Glob

open Text

/-! ## Languages -/

namespace Part

mutual

/-- The bytes that a part stands for. -/
def language : Part → Language UInt8
  | literal c => {String.utf8EncodeChar c}
  | anyByte => oneOf fun _ => true
  | anyBytes => ⊤
  | leadingFolders => 1 + ⊤ * {[47]}
  | innerFolders => {[47]} * (1 + ⊤ * {[47]})
  | trailingPath => {[47]} * ⊤
  | byteClass negated ranges => oneOf (classHolds negated ranges)
  | group branches => if allBranchesVanish branches then 1 else branchesLanguage branches

/-- The bytes that a sequence of parts stands for. -/
def partsLanguage : List Part → Language UInt8
  | [] => 1
  | part :: parts => part.language * partsLanguage parts

/-- The bytes that the branches with something to match stand for. -/
def branchesLanguage : List (List Part) → Language UInt8
  | [] => 0
  | branch :: branches =>
    if allVanish branch then branchesLanguage branches
    else partsLanguage branch + branchesLanguage branches

end

end Part

/-- The names, in bytes, that a glob denotes; `**` alone denotes every name. -/
def language (glob : Glob) : Language UInt8 :=
  match glob.parts with
  | [.leadingFolders] => ⊤
  | parts => Part.partsLanguage parts

/-- But for the pattern of leading folders, a pattern has the language of its parts. -/
theorem language_of_ne {glob : Glob} (h : glob.parts ≠ [.leadingFolders]) :
    glob.language = Part.partsLanguage glob.parts := by
  rw [language]
  split
  · exact absurd ‹_› h
  · rfl

/-! ## Tables -/

namespace Table

/-- A table says of each suffix of a name whether it is in a language. -/
def Tells (name : List UInt8) (table : Table) (language : Language UInt8) : Prop :=
  List.Forall₂ (fun here suffix => here = true ↔ suffix ∈ language) table name.tails

variable {name : List UInt8} {table other : Table} {language another : Language UInt8}

/-- At the end of the name there is one entry in a table. -/
theorem tells_nil_iff :
    Tells [] table language ↔ ∃ here, table = [here] ∧ (here = true ↔ [] ∈ language) := by
  rw [Tells, List.tails, List.forall₂_cons_right_iff]
  constructor
  · rintro ⟨here, _, hhere, hnil, rfl⟩
    rw [List.forall₂_nil_right_iff.1 hnil]
    exact ⟨here, rfl, hhere⟩
  · rintro ⟨here, rfl, hhere⟩
    exact ⟨here, [], hhere, .nil, rfl⟩

/-- In front of a byte there is an entry for here and a table for later. -/
theorem tells_cons_iff {byte : UInt8} {rest : List UInt8} :
    Tells (byte :: rest) table language ↔
      ∃ here later, table = here :: later ∧ (here = true ↔ byte :: rest ∈ language) ∧
        Tells rest later language := by
  rw [Tells, List.tails_cons, List.forall₂_cons_right_iff]
  constructor
  · rintro ⟨here, later, hhere, hlater, rfl⟩
    exact ⟨here, later, rfl, hhere, hlater⟩
  · rintro ⟨here, later, rfl, hhere, hlater⟩
    exact ⟨here, later, hhere, hlater, rfl⟩

/-- The first entry of a table is about the whole name. -/
theorem Tells.headD_iff (h : Tells name table language) :
    table.headD false = true ↔ name ∈ language := by
  cases name with
  | nil =>
    obtain ⟨here, rfl, hhere⟩ := tells_nil_iff.1 h
    exact hhere
  | cons byte rest =>
    obtain ⟨here, later, rfl, hhere, _⟩ := tells_cons_iff.1 h
    exact hhere

/-- The table in which only the end of the name is marked is that of the empty text. -/
theorem tells_atEnd (name : List UInt8) : Tells name (atEnd name) 1 := by
  induction name with
  | nil => exact tells_nil_iff.2 ⟨true, rfl, by simp⟩
  | cons byte rest ih => exact tells_cons_iff.2 ⟨false, _, rfl, by simp, ih⟩

/-- The table in front of one byte. -/
theorem Tells.afterByte {holds : UInt8 → Bool} (h : Tells name table language) :
    Tells name (afterByte holds name table) (oneOf holds * language) := by
  induction name generalizing table with
  | nil => exact tells_nil_iff.2 ⟨false, rfl, by simp [nil_notMem_oneOf_mul]⟩
  | cons byte rest ih =>
    obtain ⟨here, later, rfl, _, hlater⟩ := tells_cons_iff.1 h
    refine tells_cons_iff.2 ⟨_, _, rfl, ?_, ih hlater⟩
    rw [Bool.and_eq_true, hlater.headD_iff, cons_mem_oneOf_mul]

/-- The table in front of any bytes. -/
theorem Tells.afterBytes (h : Tells name table language) :
    Tells name (afterBytes table) (⊤ * language) := by
  induction name generalizing table with
  | nil =>
    obtain ⟨here, rfl, hhere⟩ := tells_nil_iff.1 h
    exact tells_nil_iff.2 ⟨_, rfl, by simpa [Table.afterBytes, nil_mem_top_mul] using hhere⟩
  | cons byte rest ih =>
    obtain ⟨here, later, rfl, hhere, hlater⟩ := tells_cons_iff.1 h
    refine tells_cons_iff.2 ⟨_, _, rfl, ?_, ih hlater⟩
    rw [Bool.or_eq_true, hhere, (ih hlater).headD_iff, cons_mem_top_mul]

/-- The table for one of two languages. -/
theorem Tells.either (h : Tells name table language) (h' : Tells name other another) :
    Tells name (either table other) (language + another) := by
  induction name generalizing table other with
  | nil =>
    obtain ⟨here, rfl, hhere⟩ := tells_nil_iff.1 h
    obtain ⟨there, rfl, hthere⟩ := tells_nil_iff.1 h'
    exact tells_nil_iff.2 ⟨_, rfl, by rw [Bool.or_eq_true, hhere, hthere, Language.mem_add]⟩
  | cons byte rest ih =>
    obtain ⟨here, later, rfl, hhere, hlater⟩ := tells_cons_iff.1 h
    obtain ⟨there, others, rfl, hthere, hothers⟩ := tells_cons_iff.1 h'
    refine tells_cons_iff.2 ⟨_, _, rfl, ?_, ih hlater hothers⟩
    rw [Bool.or_eq_true, hhere, hthere, Language.mem_add]

/-- A table that tells of nothing. -/
theorem Tells.none (h : Tells name table language) : Tells name (table.map fun _ => false) 0 := by
  induction name generalizing table with
  | nil =>
    obtain ⟨here, rfl, _⟩ := tells_nil_iff.1 h
    exact tells_nil_iff.2 ⟨_, rfl, by simp⟩
  | cons byte rest ih =>
    obtain ⟨here, later, rfl, _, hlater⟩ := tells_cons_iff.1 h
    exact tells_cons_iff.2 ⟨_, _, rfl, by simp, ih hlater⟩

/-- A class of one byte denotes that byte. -/
theorem oneOf_beq (byte : UInt8) : oneOf (· == byte) = ({[byte]} : Language UInt8) := by
  ext word
  rw [mem_oneOf, mem_singleton]
  simp

/-- The table in front of certain bytes. -/
theorem Tells.afterAll (h : Tells name table language) (bytes : List UInt8) :
    Tells name (afterAll name bytes table) ({bytes} * language) := by
  induction bytes with
  | nil =>
    have hone : ({[]} : Language UInt8) = 1 := rfl
    rwa [hone, one_mul]
  | cons byte bytes ih =>
    have hsplit : ({byte :: bytes} : Language UInt8) = {[byte]} * {bytes} :=
      (singleton_mul_singleton [byte] bytes).symm
    rw [hsplit, mul_assoc, ← oneOf_beq]
    exact ih.afterByte

/-- The table in front of a slash. -/
theorem Tells.afterSlash (h : Tells name table language) :
    Tells name (afterSlash name table) ({[47]} * language) := by
  rw [← oneOf_beq]
  exact h.afterByte

end Table

/-! ## Matching -/

namespace Part

open Table (Tells)

variable {name : List UInt8}

mutual

/-- A part turns a table for a language into one for the language with that of the part in front. -/
theorem tells_before : ∀ (part : Part) {table : Table} {language : Language UInt8},
    Tells name table language → Tells name (part.before name table) (part.language * language)
  | literal c, table, language, h => by
    rw [before, Part.language]
    exact h.afterAll _
  | anyByte, table, language, h => by
    rw [before, Part.language]
    exact h.afterByte
  | anyBytes, table, language, h => by
    rw [before, Part.language]
    exact h.afterBytes
  | leadingFolders, table, language, h => by
    rw [before, Part.language, add_mul, one_mul, mul_assoc]
    exact h.either h.afterSlash.afterBytes
  | innerFolders, table, language, h => by
    rw [before, Part.language, mul_assoc, add_mul, one_mul, mul_assoc]
    exact (h.either h.afterSlash.afterBytes).afterSlash
  | trailingPath, table, language, h => by
    rw [before, Part.language, mul_assoc]
    exact h.afterBytes.afterSlash
  | byteClass negated ranges, table, language, h => by
    rw [before, Part.language]
    exact h.afterByte
  | group branches, table, language, h => by
    rw [before, Part.language]
    split
    · rwa [one_mul]
    · exact tells_beforeAny branches h

/-- So does a sequence of parts. -/
theorem tells_beforeAll : ∀ (parts : List Part) {table : Table} {language : Language UInt8},
    Tells name table language →
      Tells name (beforeAll name parts table) (partsLanguage parts * language)
  | [], table, language, h => by
    rwa [beforeAll, partsLanguage, one_mul]
  | part :: parts, table, language, h => by
    rw [beforeAll, partsLanguage, mul_assoc]
    exact tells_before part (tells_beforeAll parts h)

/-- And so do the branches of a group together. -/
theorem tells_beforeAny :
    ∀ (branches : List (List Part)) {table : Table} {language : Language UInt8},
    Tells name table language →
      Tells name (beforeAny name branches table) (branchesLanguage branches * language)
  | [], table, language, h => by
    rw [beforeAny, branchesLanguage, zero_mul]
    exact h.none
  | branch :: branches, table, language, h => by
    rw [beforeAny, branchesLanguage]
    split
    · exact tells_beforeAny branches h
    · rw [add_mul]
      exact (tells_beforeAll branch h).either (tells_beforeAny branches h)

end

end Part

/-- A glob matches the names whose bytes are in its language. -/
theorem isMatch_iff_mem_language (glob : Glob) (name : String) :
    glob.isMatch name = true ↔ bytesOf name ∈ glob.language := by
  rw [isMatch]
  split
  · rename_i hparts
    rw [language, hparts]
    exact iff_of_true rfl (mem_top _)
  · rename_i hparts
    rw [language_of_ne hparts]
    have htells := Part.tells_beforeAll glob.parts (Table.tells_atEnd (bytesOf name))
    rw [mul_one] at htells
    exact htells.headD_iff

end QueryHooks.Glob
