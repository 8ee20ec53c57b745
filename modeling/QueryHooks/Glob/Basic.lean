/-!
# Glob patterns

A glob is a sequence of parts, each of which stands for a set of byte sequences.  Names are compared
byte by byte in UTF-8, so a part such as `?` stands for one byte and not for one character.

Main definitions:

- `Glob.Part`, `Glob`: the syntax of patterns.
- `Glob.Part.vanishes`: which groups leave nothing to match.
- `Glob.depth`: how deep a pattern nests, and `Glob.maxDepth`, how deep it may nest in a set.
-/

namespace QueryHooks

/-- One part of a glob. -/
inductive Glob.Part where
  /-- The bytes of one character. -/
  | literal (c : Char)
  /-- Any one byte. -/
  | anyByte
  /-- Any bytes. -/
  | anyBytes
  /-- Nothing, or any bytes up to a slash. -/
  | leadingFolders
  /-- A slash, or two slashes with any bytes between them. -/
  | innerFolders
  /-- A slash and any bytes. -/
  | trailingPath
  /-- One byte of a class given by ranges of characters, or one outside it. -/
  | byteClass (negated : Bool) (ranges : List (Char × Char))
  /-- One of several branches. -/
  | group (branches : List (List Glob.Part))
  deriving Repr

namespace Glob.Part

mutual

/-- Whether a part is a group in which nothing is left to match. -/
def vanishes : Part → Bool
  | group branches => allBranchesVanish branches
  | _ => false

/-- Whether every part of a branch vanishes. -/
def allVanish : List Part → Bool
  | [] => true
  | part :: parts => part.vanishes && allVanish parts

/-- Whether every branch of a group vanishes; such branches are left out. -/
def allBranchesVanish : List (List Part) → Bool
  | [] => true
  | branch :: branches => allVanish branch && allBranchesVanish branches

end

/-- The byte ranges that a range of characters has in a class, which takes each byte for itself. -/
def byteRanges (low high : Char) : List (UInt8 × UInt8) :=
  let lowBytes := String.utf8EncodeChar low
  let highBytes := String.utf8EncodeChar high
  let single (b : UInt8) := (b, b)
  if low = high then lowBytes.map single
  else
    lowBytes.dropLast.map single ++
      [(lowBytes.getLastD 0, highBytes.headD 0)] ++ highBytes.tail.map single

/-- Whether a byte belongs to a class. -/
def classHolds (negated : Bool) (ranges : List (Char × Char)) (byte : UInt8) : Bool :=
  negated != ranges.any fun (low, high) =>
    (byteRanges low high).any fun (first, last) => first ≤ byte && byte ≤ last

/-- The number of items that a part adds to the sequence it stands in. -/
def itemCount : Part → Nat
  | literal c => (String.utf8EncodeChar c).length
  | trailingPath => 2
  | part => if part.vanishes then 0 else 1

/-- The number of items in a sequence of parts. -/
def itemCounts (parts : List Part) : Nat :=
  parts.foldr (fun part count => itemCount part + count) 0

mutual

/--
The levels of nesting inside a part: a repetition, a class, a group and a choice are one each.
-/
def depth : Part → Nat
  | literal _ => 0
  | anyByte => 0
  | anyBytes => 1
  | leadingFolders => 4
  | innerFolders => 4
  | trailingPath => 1
  | byteClass _ ranges =>
    if (ranges.flatMap fun (low, high) => byteRanges low high).length ≤ 1 then 1 else 2
  | group branches =>
    match branches.countP fun branch => !allVanish branch with
    | 0 => 0
    | 1 => 1 + branchesDepth branches
    | _ => 2 + branchesDepth branches

/-- The levels of nesting inside the deepest part of a sequence. -/
def partsDepth : List Part → Nat
  | [] => 0
  | part :: parts => max part.depth (partsDepth parts)

/-- The levels of nesting of the deepest branch, where a sequence of several items is one level. -/
def branchesDepth : List (List Part) → Nat
  | [] => 0
  | branch :: branches =>
    max ((if itemCounts branch ≤ 1 then 0 else 1) + partsDepth branch) (branchesDepth branches)

end

end Glob.Part

/-- A pattern together with the text it was read from. -/
structure Glob where
  source : String
  parts : List Glob.Part
  deriving Repr

/-- The levels of nesting of a pattern, which is itself a sequence. -/
def Glob.depth (glob : Glob) : Nat :=
  1 + Part.partsDepth glob.parts

/-- The greatest depth of a pattern in a set. -/
def Glob.maxDepth : Nat := 250

end QueryHooks
