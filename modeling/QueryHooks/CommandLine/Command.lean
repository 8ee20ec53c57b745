import QueryHooks.CommandLine.Generate

/-!
# The command

From the arguments to the status with which the program ends, and to the world that it leaves
behind.

Main definitions: `Command.Outcome`, `Command.run`.
-/

namespace QueryHooks.Command

/-- How the program ends. -/
structure Outcome where
  status : Nat
  /-- The world that is left behind. -/
  world : World

/-- The name of the program and its version. -/
def versionText : String :=
  "graphql-swr 0.0.1"

/-- Choose how much is logged; `asked?` is the level that was asked for. -/
def setUpLog (verbose : Bool) (asked? : Option String) : StateM World Unit := do
  let (level, warning?) := LogLevel.choose verbose asked?
  modify ({ · with level })
  modify (·.record ⟨.trace, "Logging at `" ++ level.name ++ "`."⟩)
  if let some warning := warning? then modify (·.record warning)

/-- Do what a command line asks for; the result is the status. -/
def execute (asked? : Option String) : Invocation → StateM World Nat
  | .help => do
    modify (·.print (.omitted .help))
    return 0
  | .version => do
    modify (·.print (.ofText versionText))
    return 0
  | .misuse => do
    modify (·.report (.omitted .usage))
    return 2
  | .idle verbose => do
    setUpLog verbose asked?
    modify (·.print (.omitted .help))
    return 0
  | .generate verbose arguments => do
    setUpLog verbose asked?
    (generate arguments).conclude

/-- Run the program on some files. -/
def run (tree : FileTree) (arguments : List String) (asked? : Option String) : Outcome :=
  let (status, world) := (execute asked? (.ofArguments arguments)).run { tree }
  ⟨status, world⟩

end QueryHooks.Command
