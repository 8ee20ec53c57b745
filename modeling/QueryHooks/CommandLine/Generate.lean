import QueryHooks.CommandLine.Arguments
import QueryHooks.CommandLine.Discovery
import QueryHooks.CommandLine.Run

/-!
# Generating a module

The command goes through its stages in order: the configuration is read, documents are looked for
and loaded, the module is made, and it is printed or written.  The first stage that fails ends it,
and a stage that can fail in several ways at once reports all of them.  The log has the records of
the stages at all levels, but not those of the libraries that they use.

Main definition: `generate`.
-/

namespace QueryHooks

open Run

/-- Read the configuration, if there is one. -/
def readConfig (path? : Option Path) : Run Config := do
  match path? with
  | none => return {}
  | some path =>
    note .debug ("Loading hook options from " ++ path.quoted ++ ".")
    orFail .config (Config.ofFile (← files) path)

/-- Note what was found, and go on with its documents unless there are errors. -/
def reportDiscovery (arguments : GenerateArguments) (notes : List String) (discovery : Discovery) :
    Run (List Place) := do
  note .debug ("Scanning " ++ toString arguments.paths.length ++ " input paths...")
  noteAll .trace notes
  if let some place := discovery.exception? then
    note .warn ("Proceeding to load " ++ place.path.quoted ++
      " even though it doesn't match any of the --graphql-file-exts (" ++
      ", ".intercalate (arguments.extensions.map fun extension => "`" ++ extension ++ "`") ++ ").")
  if !discovery.errors.isEmpty then throw (.discovery discovery.errors)
  note .debug ("Found " ++ toString discovery.files.length ++
    " GraphQL files to generate hooks from.")
  return discovery.files

/-- Look for documents. -/
def findDocuments (arguments : GenerateArguments) : Run (List Place) := do
  let tree ← files
  reportDiscovery arguments (tree.visitNotes arguments.extensions arguments.paths)
    (tree.discover arguments.extensions arguments.paths)

/-- The operations of all documents, or the errors of all those that have any. -/
def joinLoaded (results : List (Except (List LoadError) (List Operation))) :
    Except (List LoadError) (List Operation) :=
  match allOrErrors results with
  | .ok operations => .ok operations.flatten
  | .error errors => .error errors.flatten

/-- Load one document. -/
def loadDocument (affixes : Affixes) (place : Place) :
    Run (Except (List LoadError) (List Operation)) := do
  let tree ← files
  noteAll .trace ((skippedFragments tree place.path).map fun name =>
    "Skipping fragment `" ++ name ++ "`.")
  match loadFile tree affixes place.path with
  | .error .crashed => throw .crashed
  | .error (.errors errors) => return .error errors
  | .ok operations =>
    note .debug ("Loaded " ++ toString operations.length ++ " operations from " ++
      place.path.quoted ++ ".")
    noteAll .trace (operations.map fun operation =>
      "Recording " ++ operation.kind.name ++ " operation `" ++ operation.name ++ "`.")
    return .ok operations

/-- Load all documents. -/
def loadDocuments (affixes : Affixes) (places : List Place) : Run (List Operation) := do
  orFail .loading (joinLoaded (← places.mapM (loadDocument affixes)))

/-- Make the module. -/
def makeModule (emitter : Emitter) : Run Module := do
  let operations := emitter.collector.operations
  noteAll .debug ((operations.filter emitter.config.isExcluded).map fun operation =>
    "Excluding query `" ++ operation.name ++ "`.")
  note .debug ("Generating hooks for " ++ toString (emitter.config.eligible operations).length ++
    " of " ++ toString operations.length ++ " recorded operations.")
  noteAll .trace (emitter.generated.map fun hook =>
    "Generated `" ++ hook.name ++ "` for `" ++ hook.operationName ++ "`.")
  orFail .emission emitter.emit

/-- A text without the blanks at its end. -/
def trimmed (text : String) : String :=
  String.ofList (Text.trimEnd text.toList)

/--
Write the module to a file; the result is what to print, which is the module if there is no file.
-/
def deliver (output? : Option Path) (module : Module) (operations documents : Nat) :
    Run String := do
  match output? with
  | none => return trimmed module.render
  | some path =>
    writeFile path module.render
    return "✔ Generated " ++ toString module.hookNames.length ++ " hooks for " ++
      toString operations ++ " operations from " ++ toString documents ++ " files into " ++
      path.quoted ++ "."

/-- Generate a module. -/
def generate (arguments : GenerateArguments) : Run String := do
  note .debug "Running `generate`."
  let config ← readConfig arguments.config?
  let places ← findDocuments arguments
  let operations ← loadDocuments config.affixes places
  let emitter := (Emitter.mk config {}).recordAll operations
  let module ← makeModule emitter
  deliver arguments.output? module operations.length places.length

end QueryHooks
