import QueryHooks.FileTree.Path

/-!
# Arguments

The arguments of a command line are read from left to right.  A request for help or for the version
is answered as soon as it is met, and so is anything that is not understood.

Main definitions: `GenerateArguments`, `Invocation`, `Invocation.ofArguments`.
-/

namespace QueryHooks

/-- What is to be generated. -/
structure GenerateArguments where
  config? : Option Path := none
  output? : Option Path := none
  /-- The extensions of documents, if they were given. -/
  extensions? : Option (List String) := none
  /-- Files, and directories to look for files in. -/
  paths : List Path := []
  deriving DecidableEq, Repr

/-- The extensions of documents where none are given. -/
def defaultExtensions : List String :=
  ["graphql", "gql"]

/-- The extensions as they were given. -/
def GenerateArguments.extensions (arguments : GenerateArguments) : List String :=
  arguments.extensions?.getD defaultExtensions

/-- What a command line asks for. -/
inductive Invocation where
  | help
  | version
  /-- The arguments are not understood. -/
  | misuse
  /-- There is no command. -/
  | idle (verbose : Bool)
  | generate (verbose : Bool) (arguments : GenerateArguments)
  deriving DecidableEq, Repr

/-! ## Options -/

/-- Whether an argument cannot be the value of an option. -/
def isFlag (argument : String) : Bool :=
  argument.startsWith "-" && argument != "-"

/-- The options that take a value. -/
inductive ValueOption where
  | config
  | output
  | extensions
  deriving DecidableEq, Repr

namespace GenerateArguments

/-- Set an option that takes a path; the path is not empty, and it is given once. -/
def setPath? (previous? : Option Path) (value : String) : Option (Option Path) :=
  if value.isEmpty || previous?.isSome then none else some (some ⟨value⟩)

/-- Set an option; the lists of extensions that are given are put together. -/
def set? (arguments : GenerateArguments) (option : ValueOption) (value : String) :
    Option GenerateArguments :=
  match option with
  | .config => (setPath? arguments.config? value).map ({ arguments with config? := · })
  | .output => (setPath? arguments.output? value).map ({ arguments with output? := · })
  | .extensions =>
    let given := (Text.split ',' value.toList).map String.ofList
    some { arguments with extensions? := some (arguments.extensions?.getD [] ++ given) }

/-- Add a path, which may not be empty. -/
def addPath? (arguments : GenerateArguments) (path : String) : Option GenerateArguments :=
  if path.isEmpty then none else some { arguments with paths := arguments.paths ++ [⟨path⟩] }

/-- Add paths in order. -/
def addPaths? (arguments : GenerateArguments) (paths : List String) : Option GenerateArguments :=
  paths.foldlM addPath? arguments

end GenerateArguments

/-- What an argument that begins with a dash means to the command. -/
inductive Flag where
  | help
  /-- An option with a value, which may be part of the argument. -/
  | option (option : ValueOption) (value? : Option String)
  deriving DecidableEq, Repr

namespace Flag

/-- Split an argument at its first equals sign. -/
def splitEquals (argument : List Char) : List Char × Option String :=
  match argument.dropWhile (· != '=') with
  | _ :: value => (argument.takeWhile (· != '='), some (String.ofList value))
  | [] => (argument, none)

/-- The flag that is written behind two dashes. -/
def ofLong? (argument : List Char) : Option Flag :=
  let (name, value?) := splitEquals argument
  match String.ofList name, value? with
  | "help", none => some help
  | "config", _ => some (option .config value?)
  | "output", _ => some (option .output value?)
  | "graphql-file-exts", _ => some (option .extensions value?)
  | _, _ => none

/--
The value that is written directly behind the letter of an option, with or without an equals sign.
-/
def attached? (rest : List Char) : Option String :=
  match rest with
  | [] => none
  | '=' :: value => some (String.ofList value)
  | value => some (String.ofList value)

/-- The flag that is written behind one dash. -/
def ofShort? (argument : List Char) : Option Flag :=
  match argument with
  | 'h' :: _ => some help
  | 'c' :: rest => some (option .config (attached? rest))
  | 'o' :: rest => some (option .output (attached? rest))
  | _ => none

/-- The flag that an argument is. -/
def ofArgument? (argument : String) : Option Flag :=
  match argument.toList with
  | '-' :: '-' :: rest => ofLong? rest
  | '-' :: rest => ofShort? rest
  | _ => none

end Flag

/-! ## Commands -/

namespace Invocation

/-- The command with its arguments, which need at least one path. -/
def ofGenerate (verbose : Bool) (arguments? : Option GenerateArguments) : Invocation :=
  match arguments? with
  | none => misuse
  | some arguments => if arguments.paths.isEmpty then misuse else generate verbose arguments

/-- Read the arguments of the command behind those that were read. -/
def readGenerate (verbose : Bool) (arguments : GenerateArguments) : List String → Invocation
  | [] => ofGenerate verbose (some arguments)
  | argument :: rest =>
    if argument = "--" then ofGenerate verbose (arguments.addPaths? rest)
    else if isFlag argument then
      match Flag.ofArgument? argument with
      | none => misuse
      | some .help => help
      | some (.option option (some value)) =>
        match arguments.set? option value with
        | none => misuse
        | some arguments => readGenerate verbose arguments rest
      | some (.option option none) =>
        match rest with
        | [] => misuse
        | value :: rest =>
          if isFlag value then misuse
          else
            match arguments.set? option value with
            | none => misuse
            | some arguments => readGenerate verbose arguments rest
    else
      match arguments.addPath? argument with
      | none => misuse
      | some arguments => readGenerate verbose arguments rest
termination_by arguments => arguments.length

/-- Read what follows the command for help: nothing, or the name of a command. -/
def readHelp (arguments : List String) : Invocation :=
  if arguments = [] ∨ arguments = ["generate"] ∨ arguments = ["help"] then help else misuse

/-- Read letters behind one dash in front of a command; `proceed` goes on behind them. -/
def readLetters (verbose : Bool) (proceed : Bool → Invocation) : List Char → Invocation
  | [] => proceed verbose
  | 'v' :: letters => if verbose then misuse else readLetters true proceed letters
  | 'h' :: _ => help
  | 'V' :: _ => version
  | _ => misuse

/-- Read the arguments in front of a command. -/
def readCommand (verbose : Bool) : List String → Invocation
  | [] => idle verbose
  | argument :: rest =>
    match argument with
    | "generate" => readGenerate verbose {} rest
    | "help" => readHelp rest
    | "--" => if rest.isEmpty then idle verbose else misuse
    | "--help" => help
    | "--version" => version
    | "--verbose" => if verbose then misuse else readCommand true rest
    | _ =>
      match argument.toList with
      | '-' :: '-' :: _ => misuse
      | '-' :: letter :: letters =>
        readLetters verbose (fun verbose => readCommand verbose rest) (letter :: letters)
      | _ => misuse

/-- What a command line asks for. -/
def ofArguments (arguments : List String) : Invocation :=
  readCommand false arguments

end Invocation

end QueryHooks
