import QueryHooks.CommandLine.Failure
import QueryHooks.CommandLine.Log
import QueryHooks.FileTree.Writing

/-!
# Runs

A command runs in a world of files, of what it has printed and reported so far, and of its log.  All
of these stay as they are when a part of the command fails, so what was done before the failure is
done.

Main definitions: `World`, `Run`, `Run.conclude`.
-/

namespace QueryHooks

/-- What a command finds and leaves behind. -/
structure World where
  tree : FileTree
  /-- Up to which level records are kept in the log. -/
  level : LogLevel := .info
  /-- What was printed as a result. -/
  printed : Message := []
  /-- What was reported as an error. -/
  reported : Message := []
  log : List LogRecord := []

namespace World

/-- Write a record to the log, if it is to be shown. -/
def record (world : World) (record : LogRecord) : World :=
  if world.level.shows record.level then { world with log := world.log ++ [record] } else world

/-- Print a line. -/
def print (world : World) (line : Message) : World :=
  { world with printed := world.printed ++ line ++ .ofText "\n" }

/-- Report a line. -/
def report (world : World) (line : Message) : World :=
  { world with reported := world.reported ++ line ++ .ofText "\n" }

end World

/-- A part of a command, which may fail. -/
abbrev Run := ExceptT Failure (StateM World)

namespace Run

/-- Write to the log. -/
def note (level : LogLevel) (message : String) : Run Unit :=
  modify (·.record ⟨level, message⟩)

/-- Write several messages to the log. -/
def noteAll (level : LogLevel) (messages : List String) : Run Unit :=
  for message in messages do note level message

/-- The files as they are now. -/
def files : Run FileTree :=
  return (← get).tree

/-- Fail if a result is an error. -/
def orFail {ε α : Type} (failure : ε → Failure) (result : Except ε α) : Run α :=
  match result with
  | .ok value => pure value
  | .error error => throw (failure error)

/-- Write a text to a file. -/
def writeFile (path : Path) (text : String) : Run Unit := do
  let tree ← orFail (.writing path) ((← files).write path text)
  modify ({ · with tree })

/-- Print what a command has to say, or report why it failed; the result is the status. -/
def conclude (command : Run String) : StateM World Nat := do
  match ← command.run with
  | .ok message =>
    modify (·.print (.ofText message))
    return 0
  | .error failure =>
    modify (·.report failure.message)
    return failure.status

end Run

end QueryHooks
