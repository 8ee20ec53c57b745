import QueryHooks.FileTree.Basic

/-!
# Reading files

The text of the file that a path leads to.

Main definitions: `FileTree.ReadError`, `FileTree.readText`.
-/

namespace QueryHooks.FileTree

/-- Why a path gives no text. -/
inductive ReadError where
  /-- The path leads nowhere, or not to a file. -/
  | notFile (path : Path)
  /-- The bytes of the file are not UTF-8. -/
  | notText (path : Path) (content : List UInt8)
  deriving DecidableEq

namespace ReadError

/-- The text of the error. -/
def message : ReadError → String
  | notFile path => "Path " ++ path.quoted ++ " is not a file"
  | notText path _ => "File at " ++ path.quoted ++ " is not valid UTF-8"

/-- Whether two errors are about the same path and, where bytes were read, about the same bytes. -/
def same : ReadError → ReadError → Bool
  | notFile path, notFile other => path.same other
  | notText path content, notText other otherContent => path.same other && content == otherContent
  | _, _ => false

end ReadError

/-- Whether a path leads to a file. -/
def isFile (tree : FileTree) (path : Path) : Bool :=
  match tree.find path with
  | .ok (_, .file _) => true
  | _ => false

/-- The text of the file that a path leads to. -/
def readText (tree : FileTree) (path : Path) : Except ReadError String :=
  match tree.find path with
  | .ok (_, .file content) =>
    match String.fromUTF8? ⟨content.toArray⟩ with
    | some text => .ok text
    | none => .error (.notText path content)
  | _ => .error (.notFile path)

end QueryHooks.FileTree
