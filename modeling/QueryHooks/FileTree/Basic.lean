import QueryHooks.FileTree.Path

/-!
# File trees

A file tree is a list of places with what is found there.  Paths are resolved in it component by
component, and a symbolic link is replaced by its target on the way.

Main definitions: `Place`, `FileTree`, `FileTree.Fault`, `FileTree.resolve`.
-/

namespace QueryHooks

/-- The names that lead from the root of a tree to an entry, with no links on the way. -/
abbrev Place := List String

/-- Whether a place comes before another one or is the same, compared name by name. -/
def Place.le : Place → Place → Bool
  | [], _ => true
  | _ :: _, [] => false
  | name :: names, other :: others => name < other || name == other && Place.le names others

/-- The absolute path of a place. -/
def Place.path (place : Place) : Path :=
  ⟨"/" ++ "/".intercalate place⟩

/-- What is found at a place. -/
inductive FileTree.Entry where
  /-- A file with its bytes. -/
  | file (content : List UInt8)
  | directory
  /-- A link to where its target leads from the directory that holds it. -/
  | symlink (target : Path)
  deriving DecidableEq

/-- Files, directories and links, and the directory where relative paths begin. -/
structure FileTree where
  /-- What is found at the places below the root, each of them once. -/
  entries : List (Place × FileTree.Entry)
  workingDirectory : Place
  distinct : (entries.map Prod.fst).Nodup := by simp

namespace FileTree

/-- Why a path leads nowhere. -/
inductive Fault where
  | notFound
  | notDirectory
  | isDirectory
  | tooManyLinks
  deriving DecidableEq, Repr

/-- The text of the fault. -/
def Fault.message : Fault → String
  | notFound => "No such file or directory (os error 2)"
  | notDirectory => "Not a directory (os error 20)"
  | isDirectory => "Is a directory (os error 21)"
  | tooManyLinks => "Too many levels of symbolic links (os error 40)"

/-- What is found at a place, if anything; the root is always a directory. -/
def lookup (tree : FileTree) (place : Place) : Option Entry :=
  if place.isEmpty then some .directory else tree.entries.lookup place

/-- The number of links that may be followed in one resolution. -/
def maxLinks : Nat := 40

/-- Where the parts of a path begin: at the root if it is absolute. -/
def startOf (path : Path) (here : Place) : Place :=
  if path.isAbsolute then [] else here

/--
The place that parts of a path lead to from a place, where `links` more links may be followed.  A
link at the end of the path is followed only if `followLast` says so.  A part may follow only on a
directory, also if it is empty or a dot.
-/
def resolveFrom (tree : FileTree) (followLast : Bool) (links : Nat) (here : Place) :
    List String → Except Fault Place
  | [] => .ok here
  | part :: parts =>
    match tree.lookup here with
    | none => .error .notFound
    | some .directory =>
      if part = "" ∨ part = "." then tree.resolveFrom followLast links here parts
      else if part = ".." then tree.resolveFrom followLast links here.dropLast parts
      else
        match tree.lookup (here ++ [part]) with
        | none => .error .notFound
        | some (.symlink target) =>
          if parts.isEmpty && !followLast then .ok (here ++ [part])
          else
            match links with
            | 0 => .error .tooManyLinks
            | links + 1 =>
              if target.text.isEmpty then .error .notFound
              else tree.resolveFrom followLast links (startOf target here) (target.parts ++ parts)
        | some _ => tree.resolveFrom followLast links (here ++ [part]) parts
    | some _ => .error .notDirectory
termination_by parts => (links, parts.length)

/-- The place that a path leads to. -/
def resolve (tree : FileTree) (path : Path) : Except Fault Place :=
  if path.text.isEmpty then .error .notFound
  else tree.resolveFrom true maxLinks (startOf path tree.workingDirectory) path.parts

/-- What a path leads to, and its place. -/
def find (tree : FileTree) (path : Path) : Except Fault (Place × Entry) := do
  let place ← tree.resolve path
  match tree.lookup place with
  | none => throw .notFound
  | some entry => return (place, entry)

end FileTree

end QueryHooks
