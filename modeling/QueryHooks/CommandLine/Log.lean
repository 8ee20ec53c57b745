import QueryHooks.Text.Blank
import QueryHooks.Text.Digits

/-!
# Log

What the command says about its progress.  Only records up to the chosen level are shown.

Main definitions: `LogLevel`, `LogLevel.parse?`, `LogLevel.choose`, `LogRecord`.
-/

namespace QueryHooks

/-- How much is shown, from little to much. -/
inductive LogLevel where
  | error
  | warn
  | info
  | debug
  | trace
  deriving DecidableEq, Repr

/-- A message for the log. -/
structure LogRecord where
  level : LogLevel
  message : String
  deriving DecidableEq, Repr

namespace LogLevel

/-- The number of a level, counted from one. -/
def number : LogLevel → Nat
  | error => 1
  | warn => 2
  | info => 3
  | debug => 4
  | trace => 5

/-- The name of a level. -/
def name : LogLevel → String
  | error => "ERROR"
  | warn => "WARN"
  | info => "INFO"
  | debug => "DEBUG"
  | trace => "TRACE"

/-- All levels. -/
def all : List LogLevel :=
  [error, warn, info, debug, trace]

/-- Whether a record of some level is shown. -/
def shows (chosen level : LogLevel) : Bool :=
  level.number ≤ chosen.number

/-- The number that a text of digits stands for, which may have a plus sign. -/
def numberOf? (text : List Char) : Option Nat :=
  let digits := if text.head? = some '+' then text.tail else text
  Text.natural? 10 digits

/-- The level that a text means: its name or its number, where `verbose` is a name of `debug`. -/
def parse? (text : List Char) : Option LogLevel :=
  let upper := text.map Char.toUpper
  if upper = "VERBOSE".toList then some debug
  else
    all.find? fun level => upper == level.name.toList || numberOf? text == some level.number

/--
The level to be shown, and a warning if the level that was asked for does not exist.  Being verbose
goes before any level that was asked for.
-/
def choose (verbose : Bool) (asked? : Option String) : LogLevel × Option LogRecord :=
  if verbose then (debug, none)
  else
    match asked? with
    | none => (info, none)
    | some asked =>
      let asked := Text.trim asked.toList
      match parse? asked with
      | some level => (level, none)
      | none =>
        (info, some ⟨warn, "Ignoring invalid `LOG_LEVEL` value `" ++ String.ofList asked ++
          "`; logging at `" ++ info.name ++ "` instead."⟩)

end LogLevel

end QueryHooks
