import QueryHooks.FileTree.Reading
import QueryHooks.FileTree.Walk

/-!
# Discovery of documents

The documents at and below some paths are the files with one of the extensions.  A file that is the
only path is taken whatever its extension.

Main definitions: `Discovery`, `FileTree.discover`, `visitNote?`.
-/

namespace QueryHooks

/-- The documents that were found, and where it was not possible to look. -/
structure Discovery where
  /-- The documents, in the order of their places and each of them once. -/
  files : List Place
  errors : List WalkError
  /-- The document that was taken in spite of its extension. -/
  exception? : Option Place
  deriving DecidableEq, Repr

namespace FileTree

/-- An extension without the dots in front of it. -/
def bareExtension (extension : String) : String :=
  String.ofList (extension.toList.dropWhile (· == '.'))

/-- Whether something found is a file with one of some extensions. -/
def isDocument (extensions : List String) (found : Found) : Bool :=
  found.isFile && found.path.extension?.any ((extensions.map bareExtension).contains ·)

/-- What some walks come to. -/
def foundIn (visits : List (Except WalkError Found)) : List Found :=
  visits.filterMap fun
    | .ok found => some found
    | .error _ => none

/-- The errors of some walks. -/
def errorsIn (visits : List (Except WalkError Found)) : List WalkError :=
  visits.filterMap fun
    | .ok _ => none
    | .error error => some error

/-- What is noted of something that a walk from some path comes to. -/
def visitNote? (extensions : List String) (start : Path) : Except WalkError Found → Option String
  | .error _ =>
    some ("Encountered an error while iterating recursive filesystem entities at/under " ++
      start.quoted ++ ".")
  | .ok found =>
    if !found.isFile then some ("Skipping non-file: " ++ found.path.quoted ++ ".")
    else if isDocument extensions found then
      some ("Found GraphQL file at " ++ found.path.quoted ++ ".")
    else none

/-- What is noted of the walks from some paths. -/
def visitNotes (tree : FileTree) (extensions : List String) (paths : List Path) : List String :=
  paths.flatMap fun path => (tree.walk path).filterMap (visitNote? extensions path)

/-- Places in their order, each of them once. -/
def arrange (places : List Place) : List Place :=
  (places.mergeSort Place.le).eraseReps

/-- The file that is the only one of some paths. -/
def onlyFile? (tree : FileTree) (paths : List Path) : Option Place :=
  match paths with
  | [path] => if tree.isFile path then (tree.resolve path).toOption else none
  | _ => none

/-- The documents at and below some paths. -/
def discover (tree : FileTree) (extensions : List String) (paths : List Path) : Discovery :=
  let visits := paths.flatMap tree.walk
  let documents := ((foundIn visits).filter (isDocument extensions)).map Found.place
  let exception? := if documents.isEmpty then tree.onlyFile? paths else none
  { files := arrange (documents ++ exception?.toList), errors := errorsIn visits, exception? }

end FileTree

end QueryHooks
