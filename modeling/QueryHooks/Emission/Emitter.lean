import QueryHooks.Emission.Assembly
import QueryHooks.Emission.Collector
import QueryHooks.Emission.Eligible
import QueryHooks.Emission.Imports
import QueryHooks.Operation.Loading

/-!
# Emission of modules

An emitter records operations and makes the module of their hooks as often as it is asked to.  It
fails if two hooks have the same name, since one of them would hide the other in the bundle.

Main definitions: `HookCollision`, `Generation`, `Emitter`, `Emitter.hooks`, `Emitter.emit`,
`Module.render`.
-/

namespace QueryHooks

/-! ## Collisions -/

/-- Two hooks with the same name. -/
structure HookCollision where
  firstOperation : String
  secondOperation : String
  hookName : String
  deriving DecidableEq, Repr

/-- The text of the error. -/
def HookCollision.message (error : HookCollision) : String :=
  "Operations `" ++ error.firstOperation ++ "` and `" ++ error.secondOperation ++
    "` both generate a hook named `" ++ error.hookName ++ "`"

/-! ## Generation -/

/-- The hooks generated so far, and the operation that each of their names belongs to. -/
structure Generation where
  hooks : List Hook := []
  /-- The names that are taken, each with the name of the operation that took it. -/
  owners : List (String × String) := []

namespace Generation

/-- Take one hook more, unless its name is taken. -/
def add (generation : Generation) (hook : Hook) : Except HookCollision Generation :=
  match generation.owners.lookup hook.name with
  | some first => .error ⟨first, hook.operationName, hook.name⟩
  | none =>
    .ok
      { hooks := generation.hooks ++ [hook]
        owners := (hook.name, hook.operationName) :: generation.owners }

/-- Some hooks, up to the first whose name is taken. -/
def accepted (generation : Generation) : List Hook → List Hook
  | [] => []
  | hook :: hooks =>
    match generation.add hook with
    | .error _ => []
    | .ok later => hook :: later.accepted hooks

/-- Take the hooks of one operation more, up to the first whose name is taken. -/
def addOperation (config : Config) (generation : Generation) (operation : Operation) :
    Except HookCollision Generation :=
  (hooksOf operation (config.settingsFor operation)).foldlM add generation

end Generation

/-! ## Modules -/

/-- A generated module. -/
structure Module where
  imports : List String
  content : String
  /-- The names of its hooks, in order. -/
  hookNames : List String
  deriving DecidableEq, Repr

/--
The text of a module: its imports, an empty line and its content, with a line feed at the end.
-/
def Module.render (module : Module) : String :=
  (if module.imports.isEmpty then "" else joinLines module.imports ++ "\n\n") ++ module.content ++
    "\n"

/-! ## Emitters -/

/-- A configuration with the operations recorded so far. -/
structure Emitter where
  config : Config
  collector : Collector := {}

namespace Emitter

/-- Record an operation. -/
def record (emitter : Emitter) (operation : Operation) : Emitter :=
  { emitter with collector := emitter.collector.record operation }

/-- Record some operations in order. -/
def recordAll (emitter : Emitter) (operations : List Operation) : Emitter :=
  { emitter with collector := emitter.collector.recordAll operations }

@[simp]
theorem operations_record (emitter : Emitter) (operation : Operation) :
    (emitter.record operation).collector.operations = emitter.collector.operations ++ [operation] :=
  rfl

@[simp]
theorem operations_recordAll (emitter : Emitter) (operations : List Operation) :
    (emitter.recordAll operations).collector.operations =
      emitter.collector.operations ++ operations := by
  simp [recordAll]

/-- Whether two emitters are equal: their configurations, and what they have recorded. -/
def same (emitter other : Emitter) : Bool :=
  emitter.collector.same other.collector && emitter.config == other.config

/-- Load a document and record all its operations. -/
def load (emitter : Emitter) (path? : Option Path) (text : String) :
    Except LoadFailure Emitter :=
  (loadText emitter.config.affixes path? text).map emitter.recordAll

/-- The hooks of the recorded operations that get any, in order, unless two of them share a name. -/
def hooks (emitter : Emitter) : Except HookCollision (List Hook) :=
  ((emitter.config.eligible emitter.collector.operations).foldlM
    (Generation.addOperation emitter.config) {}).map Generation.hooks

/-- The hooks that are generated, also if one behind them has the name of one of them. -/
def generated (emitter : Emitter) : List Hook :=
  Generation.accepted {} (emitter.config.hooksFor emitter.collector.operations)

/-- The module of the recorded operations. -/
def emit (emitter : Emitter) : Except HookCollision Module :=
  emitter.hooks.map fun hooks =>
    { imports := emitter.config.imports
      content := emitter.config.assemble hooks
      hookNames := hooks.map Hook.name }

end Emitter

end QueryHooks
