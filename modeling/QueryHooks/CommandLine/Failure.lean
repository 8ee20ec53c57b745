import QueryHooks.Config.Basic
import QueryHooks.Emission.Emitter
import QueryHooks.FileTree.Walk

/-!
# Failures

Why a command makes no module, and how it says so.  A stage that can fail in several ways at once
reports all of them.  Where the program crashes, nothing that was met before is reported.

Main definitions: `Failure`, `Failure.message`, `Failure.status`.
-/

namespace QueryHooks

/-- Why there is no module. -/
inductive Failure where
  | config (error : Config.Error)
  | discovery (errors : List WalkError)
  | loading (errors : List LoadError)
  | emission (error : HookCollision)
  | writing (path : Path) (fault : FileTree.Fault)
  /-- The program crashed. -/
  | crashed
  deriving DecidableEq

/-- Messages under one head. -/
def reportAll (messages : List Message) : Message :=
  .ofText "✘ Hook generation failed:\n" ++ .unlines (messages.map (.ofText "  * " ++ ·))

namespace Failure

/-- The text of a failure. -/
def message : Failure → Message
  | config error => .ofText "✘ Invalid configuration: " ++ error.message
  | discovery errors => reportAll (errors.map fun error => .ofText error.message)
  | loading errors => reportAll (errors.map LoadError.message)
  | emission error => reportAll [.ofText error.message]
  | writing path fault =>
    .ofText ("✘ Failed to write " ++ path.quoted ++ ": " ++ fault.message)
  | crashed => .omitted .crash

/-- The status with which the program ends. -/
def status : Failure → Nat
  | crashed => 101
  | config _ | discovery _ | loading _ | emission _ | writing _ _ => 1

end Failure

end QueryHooks
