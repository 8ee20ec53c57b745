import QueryHooks.Text.Quoted
import QueryHooks.Text.Separated

/-!
# Paths

A path is kept as it was given, since messages show it that way.  Two paths are the same when they
have the same components, which leaves aside how the slashes between them were written.

Main definitions: `Path`, `Path.components`, `Path.same`, `Path.extension?`.
-/

namespace QueryHooks

/-- The text that leads to a file or a directory. -/
structure Path where
  text : String
  deriving DecidableEq, Repr, Inhabited

namespace Path

/-- The path as it is written in messages. -/
def quoted (path : Path) : String :=
  Text.quote path.text

/-- The path of an entry of the directory that a path leads to. -/
def join (path : Path) (name : String) : Path :=
  if path.text.endsWith "/" then ⟨path.text ++ name⟩ else ⟨path.text ++ "/" ++ name⟩

/-- Whether the path begins at the root. -/
def isAbsolute (path : Path) : Bool :=
  path.text.startsWith "/"

/-- The parts of a path between its slashes; some of them may be empty. -/
def parts (path : Path) : List String :=
  (Text.split '/' path.text.toList).map String.ofList

/--
The parts of a path that have a meaning of their own.  A dot counts only where a relative path
begins with it.
-/
def components (path : Path) : List String :=
  let isName (part : String) : Bool := part != "" && part != "."
  match path.parts with
  | [] => []
  | first :: later => (if first = "" then [] else [first]) ++ later.filter isName

/-- Whether two paths are written with the same components. -/
def same (path other : Path) : Bool :=
  path.isAbsolute == other.isAbsolute && path.components == other.components

/-- What follows the last dot of a name, unless nothing stands before that dot. -/
def extensionOf? (name : List Char) : Option (List Char) :=
  let ending := name.reverse.takeWhile (· != '.')
  match name.reverse.dropWhile (· != '.') with
  | _ :: _ :: _ => some ending.reverse
  | _ => none

/-- The extension of the last component of a path, if it has one. -/
def extension? (path : Path) : Option String :=
  match path.components.getLast? with
  | none => none
  | some name => if name = ".." then none else (extensionOf? name.toList).map String.ofList

end Path

end QueryHooks
