import QueryHooks.CommandLine.Command

/-!
# The program

Reads the files that the command may look at, runs it on them, and carries out what comes of it.
Where a message of the command leaves something open, the program puts in words of its own.
-/

namespace QueryHooks.Main

/-- The names in an absolute path. -/
def placeOf (path : Path) : Place :=
  path.components.filter (· != ".")

/-- What was read so far. -/
structure Snapshot where
  tree : FileTree
  /-- The directories that were read with all that is below them. -/
  explored : List Place := []

/-- Files are read into a snapshot. -/
abbrev Reader := StateT Snapshot IO

/-- Note what is at a place. -/
def noteEntry (place : Place) (entry : FileTree.Entry) : Reader Unit :=
  modify fun snapshot =>
    if (snapshot.tree.entries.lookup place).isSome then snapshot
    else { snapshot with tree := snapshot.tree.put place entry }

/-- Note that a directory is being read; the result says whether that is new. -/
def noteExplored (place : Place) : Reader Bool :=
  modifyGet fun snapshot =>
    if snapshot.explored.contains place then (false, snapshot)
    else (true, { snapshot with explored := place :: snapshot.explored })

mutual

/-- Read what is at a place, and if `deep` all that is below it. -/
partial def readPlace (place : Place) (deep : Bool) : Reader Place := do
  let path := System.mkFilePath [place.path.text]
  match ← (path.symlinkMetadata).toBaseIO with
  | .error _ => return place
  | .ok metadata =>
    match metadata.type with
    | .symlink =>
      let target : Path := ⟨(← IO.FS.realPath path).toString⟩
      noteEntry place (.symlink target)
      if target = place.path then return place
      readFrom [] (placeOf target) deep
    | .dir =>
      noteEntry place .directory
      if deep then
        if ← noteExplored place then readChildren place (← path.readDir).toList
      return place
    | .file =>
      noteEntry place (.file (← IO.FS.readBinFile path).toList)
      return place
    | .other => return place

/-- Read what is in a directory. -/
partial def readChildren (place : Place) : List IO.FS.DirEntry → Reader Unit
  | [] => pure ()
  | child :: children => do
    let _ ← readPlace (place ++ [child.fileName]) true
    readChildren place children

/-- Read what the parts of a path lead to from a place. -/
partial def readFrom (here : Place) (parts : List String) (deep : Bool) : Reader Place := do
  match parts with
  | [] => readPlace here deep
  | ".." :: parts => readFrom here.dropLast parts deep
  | part :: parts =>
    if part.isEmpty || part == "." then readFrom here parts deep
    else readFrom (← readPlace (here ++ [part]) (deep && parts.isEmpty)) parts deep

end

/-- Read what a path leads to. -/
def readPath (here : Place) (deep : Bool) (path : Path) : Reader Unit := do
  let _ ← readFrom (FileTree.startOf path here) path.parts deep

/-- Read the files that the arguments name. -/
def readFor (here : Place) (arguments : GenerateArguments) : Reader Unit := do
  let _ ← readFrom [] here false
  arguments.paths.forM (readPath here true)
  arguments.config?.toList.forM (readPath here false)
  arguments.output?.toList.forM (readPath here false)

/-- The files that a command line may look at. -/
def readTree (arguments : List String) : IO FileTree := do
  let here := placeOf ⟨(← IO.currentDir).toString⟩
  let tree : FileTree := { entries := [], workingDirectory := here }
  match Invocation.ofArguments arguments with
  | .generate _ arguments => return (← (readFor here arguments).run { tree }).2.tree
  | _ => return tree

/-- Write the files in which a tree differs from another one. -/
def writeChanges (before after : FileTree) : IO Unit := do
  for (place, entry) in after.entries do
    if let .file content := entry then
      if before.lookup place != some entry then IO.FS.writeBinFile place.path.text ⟨content.toArray⟩

/-- What is said where a message leaves something open. -/
def wording : Omission → String
  | .usage | .help =>
    "Usage: graphql-swr [-v] generate [-c FILE] [-o FILE] " ++
      "[--graphql-file-exts EXTENSIONS] FILE_OR_DIR_PATHS..."
  | .expectations => ""
  | .yamlFault => "the text is no YAML document"
  | .yamlPlace => ""
  | .regexFault => "the pattern nests too deep"
  | .crash => "a block string is indented by a part of a character"

/-- Carry out what comes of a run; the result is the status with which the program ends. -/
def carryOut (before : FileTree) (outcome : Command.Outcome) : IO UInt32 := do
  for record in outcome.world.log do
    IO.eprintln (record.level.name ++ " " ++ record.message)
  writeChanges before outcome.world.tree
  IO.print (outcome.world.printed.fill wording)
  IO.eprint (outcome.world.reported.fill wording)
  return outcome.status.toUInt32

end QueryHooks.Main

/-- Run the command on the arguments of the program. -/
def main (arguments : List String) : IO UInt32 := do
  let tree ← QueryHooks.Main.readTree arguments
  QueryHooks.Main.carryOut tree (QueryHooks.Command.run tree arguments (← IO.getEnv "LOG_LEVEL"))
