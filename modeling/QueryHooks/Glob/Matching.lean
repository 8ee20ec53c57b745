import QueryHooks.Glob.Basic

/-!
# Matching of globs

A pattern is matched from its end.  A table says of each suffix of the name whether the parts
already dealt with match it; a part in front of them turns that table into another one.  So a name
is matched in time proportional to its length and to that of the pattern.

Main definitions: `Glob.Part.before`, `Glob.isMatch`.
-/

namespace QueryHooks.Glob

/--
Whether something holds of each suffix of a name, the whole name first and the empty text last.
-/
abbrev Table := List Bool

namespace Table

/-- Only the empty suffix. -/
def atEnd : List UInt8 → Table
  | [] => [true]
  | _ :: rest => false :: atEnd rest

/-- The suffixes that begin with a byte of a class and then have a suffix of the table. -/
def afterByte (holds : UInt8 → Bool) : List UInt8 → Table → Table
  | byte :: rest, _ :: table => (holds byte && table.headD false) :: afterByte holds rest table
  | _, _ => [false]

/-- The suffixes that have themselves a suffix of the table. -/
def afterBytes : Table → Table
  | [] => []
  | here :: table =>
    let later := afterBytes table
    (here || later.headD false) :: later

/-- The suffixes of either table. -/
def either (table other : Table) : Table :=
  List.zipWith (· || ·) table other

/-- The suffixes that begin with given bytes and then have a suffix of the table. -/
def afterAll (name : List UInt8) (bytes : List UInt8) (table : Table) : Table :=
  bytes.foldr (fun byte table => afterByte (· == byte) name table) table

/-- The suffixes that begin with a slash and then have a suffix of the table. -/
def afterSlash (name : List UInt8) (table : Table) : Table :=
  afterByte (· == 47) name table

end Table

open Table

namespace Part

mutual

/-- The suffixes of a name that a part matches up to a suffix of the table. -/
def before (name : List UInt8) : Part → Table → Table
  | literal c, table => afterAll name (String.utf8EncodeChar c) table
  | anyByte, table => afterByte (fun _ => true) name table
  | anyBytes, table => afterBytes table
  | leadingFolders, table => either table (afterBytes (afterSlash name table))
  | innerFolders, table =>
    afterSlash name (either table (afterBytes (afterSlash name table)))
  | trailingPath, table => afterSlash name (afterBytes table)
  | byteClass negated ranges, table => afterByte (classHolds negated ranges) name table
  | group branches, table =>
    if allBranchesVanish branches then table else beforeAny name branches table

/-- The suffixes of a name that a sequence of parts matches up to a suffix of the table. -/
def beforeAll (name : List UInt8) : List Part → Table → Table
  | [], table => table
  | part :: parts, table => part.before name (beforeAll name parts table)

/-- The suffixes of a name that a branch with something to match matches up to the table. -/
def beforeAny (name : List UInt8) : List (List Part) → Table → Table
  | [], table => table.map fun _ => false
  | branch :: branches, table =>
    if allVanish branch then beforeAny name branches table
    else either (beforeAll name branch table) (beforeAny name branches table)

end

end Part

/-- The bytes of a name in UTF-8. -/
def bytesOf (name : String) : List UInt8 :=
  name.toList.flatMap String.utf8EncodeChar

/-- Whether a pattern matches a whole name.  The pattern `**` alone matches every name. -/
def isMatch (glob : Glob) (name : String) : Bool :=
  match glob.parts with
  | [.leadingFolders] => true
  | parts =>
    let bytes := bytesOf name
    (Part.beforeAll bytes parts (atEnd bytes)).headD false

end QueryHooks.Glob
