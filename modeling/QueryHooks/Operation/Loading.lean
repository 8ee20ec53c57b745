import QueryHooks.Affixes
import QueryHooks.Document.Parser
import QueryHooks.Document.ValueText
import QueryHooks.FileTree.Reading
import QueryHooks.Message
import QueryHooks.Operation.Draft

/-!
# Loading operations

The operations of a document, in the order in which it defines them.  Either all of its operations
are loaded, or none and each mistake is reported.  A document of which a block string cannot be cut
ends the program, so there is no report either.

Main definitions: `LoadError`, `LoadFailure`, `Operation.ofDefinition`, `allOrErrors`, `loadText`,
`loadFile`, `skippedFragments`.
-/

namespace QueryHooks

/-- What is wrong with a document. -/
inductive LoadError where
  /-- An operation has no name. -/
  | anonymous (position : Document.Position) (path? : Option Path)
  /-- The document cannot be read. -/
  | unreadable (error : FileTree.ReadError)
  /-- An operation declares a variable name twice. -/
  | duplicate (error : DuplicateVariable)
  /-- The text is no document. -/
  | unparsable (position : Document.Position) (path? : Option Path)
  deriving DecidableEq

/-- The path of a document as it is written in messages, if it has one. -/
def quotedPath? : Option Path → String
  | none => "None"
  | some path => "Some(" ++ path.quoted ++ ")"

/-- The text of the error. -/
def LoadError.message : LoadError → Message
  | anonymous position path? =>
    .ofText ("Anonymous operation at " ++ position.text ++ " in " ++ quotedPath? path? ++
      ": hooks can only be generated for named operations")
  | unreadable error => .ofText ("Failed to read GraphQL document: " ++ error.message)
  | duplicate error => .ofText error.message
  | unparsable position path? =>
    .ofText ("Failed to parse GraphQL document " ++ quotedPath? path? ++
      ": query parse error: Parse error at " ++ position.text) ++ .omitted .expectations

/-- Why no operations are loaded. -/
inductive LoadFailure where
  /-- There are mistakes, which are reported. -/
  | errors (errors : List LoadError)
  /-- The program ends while it reads the document. -/
  | crashed
  deriving DecidableEq

/-- The variable that a definition declares. -/
def Variable.ofDefinition (definition : Document.VariableDefinition) : Variable where
  name := definition.name
  type := .ofSyntax definition.type
  default? := definition.default?.map Document.Value.text

/-- The draft of an operation whose types have their default names between the affixes. -/
def Operation.Draft.affixed (affixes : Affixes) (kind : Operation.Kind) (name : String) :
    Operation.Draft :=
  let base := Casing.pascal name ++ kind.name
  { kind, name
    resultType? := some (affixes.wrap base)
    variablesType? := some (affixes.wrap (base ++ "Variables")) }

/-- The operation that a definition defines, which has to have a name. -/
def Operation.ofDefinition (affixes : Affixes) (path? : Option Path)
    (definition : Document.OperationDefinition) : Except LoadError Operation :=
  match definition.name? with
  | none => .error (.anonymous definition.position path?)
  | some name =>
    let draft := Operation.Draft.affixed affixes definition.kind name
    match draft.addVariables (definition.declared.map Variable.ofDefinition) with
    | .error error => .error (.duplicate error)
    | .ok draft => .ok draft.build

/-! ## All results or all errors -/

/-- The values and the errors met so far, each in order. -/
structure Results (ε α : Type) where
  values : List α := []
  errors : List ε := []

/-- Put a result behind those before it that are of its sort. -/
def Results.push {ε α : Type} (results : Results ε α) : Except ε α → Results ε α
  | .ok value => { results with values := results.values ++ [value] }
  | .error error => { results with errors := results.errors ++ [error] }

/-- All values if there is no error among some outcomes, and all errors otherwise. -/
def allOrErrors {ε α : Type} (outcomes : List (Except ε α)) : Except (List ε) (List α) :=
  let results := outcomes.foldl Results.push {}
  if results.errors.isEmpty then .ok results.values else .error results.errors

/-! ## Documents -/

/-- The operations of a document, given by its text. -/
def loadText (affixes : Affixes) (path? : Option Path) (text : String) :
    Except LoadFailure (List Operation) :=
  match Document.parse text with
  | .error .crashed => .error .crashed
  | .error (.rejected position) => .error (.errors [.unparsable position path?])
  | .ok definitions =>
    (allOrErrors ((definitions.filterMap Document.Definition.operation?).map
      (Operation.ofDefinition affixes path?))).mapError .errors

/-- The operations of a document, given by the path of its file. -/
def loadFile (tree : FileTree) (affixes : Affixes) (path : Path) :
    Except LoadFailure (List Operation) :=
  match tree.readText path with
  | .error error => .error (.errors [.unreadable error])
  | .ok text => loadText affixes (some path) text

/-- The names of the fragments of a document, which are passed over when it is loaded. -/
def skippedFragments (tree : FileTree) (path : Path) : List String :=
  match (tree.readText path).toOption.map Document.parse with
  | some (.ok definitions) => definitions.filterMap Document.Definition.fragment?
  | _ => []

end QueryHooks
