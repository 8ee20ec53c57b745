import QueryHooks.Affixes
import QueryHooks.Config.Decoding
import QueryHooks.FileTree.Reading
import QueryHooks.PatternSet
import QueryHooks.Text.Blank

/-!
# Configurations

A configuration is made from options once and for all: the affixes are checked and the patterns are
read.

Main definitions: `Config`, `Config.Error`, `Config.ofOptions`, `Config.ofText`, `Config.ofFile`.
-/

namespace QueryHooks

/-- What the generation of hooks depends on besides the operations. -/
structure Config where
  autogenKey : Bool := false
  excludeQueries : PatternSet := ∅
  infiniteQueries : PatternSet := ∅
  rawResponse : Bool := false
  /-- The affixes of the names of types. -/
  affixes : Affixes := {}
  useTypeImports : Bool := false
  deriving Repr, BEq, ReflBEq, LawfulBEq

namespace Config

/-- Why there is no configuration. -/
inductive Error where
  /-- Its file cannot be read. -/
  | unreadable (error : FileTree.ReadError)
  /-- A pattern is none. -/
  | invalidPattern (option : OptionName) (error : PatternSet.Error)
  /-- An affix has a character that cannot be in the name of a type. -/
  | invalidAffix (option : OptionName) (value : String)
  /-- The text gives no options. -/
  | malformed (error : Malformed)
  deriving DecidableEq

/-- The text of the error. -/
def Error.message : Error → Message
  | unreadable error => .ofText ("Failed to read configuration file: " ++ error.message)
  | invalidPattern option error =>
    .ofText ("Invalid glob pattern `" ++ error.pattern ++ "` in `" ++ option.text ++ "`: ") ++
      error.cause
  | invalidAffix option value =>
    .ofText ("`" ++ option.text ++ "` must only contain TypeScript identifier characters (" ++
      "`A-Z`, `a-z`, `0-9`, `_`, `$`), found `" ++ value ++ "`")
  | malformed error => .ofText "Malformed configuration: " ++ error.message

/-! ## Making a configuration -/

/-- Whether a character can be in the name of a type. -/
def isNamePart (c : Char) : Bool :=
  c.isAlphanum || c == '_' || c == '$'

/-- An affix, if all its characters can be in the name of a type. -/
def checkAffix (option : OptionName) (value : String) : Except Error String :=
  if value.toList.all isNamePart then .ok value else .error (.invalidAffix option value)

/-- The patterns of an option. -/
def readPatterns (option : OptionName) (setting? : Option PatternSetting) :
    Except Error PatternSet :=
  match PatternSet.ofList (setting?.elim [] PatternSetting.patterns) with
  | .ok set => .ok set
  | .error error => .error (.invalidPattern option error)

/-- The configuration with some options, which are checked one after the other. -/
def ofOptions (options : Options) : Except Error Config := do
  let before ← checkAffix .typesPrefix options.typesPrefix
  let after ← checkAffix .typesSuffix options.typesSuffix
  let excludeQueries ← readPatterns .excludeQueries options.excludeQueries?
  let infiniteQueries ← readPatterns .infiniteQueries options.infiniteQueries?
  return {
    autogenKey := options.autogenKey
    excludeQueries
    infiniteQueries
    rawResponse := options.rawResponse
    affixes := ⟨before, after⟩
    useTypeImports := options.useTypeImports }

/-- The configuration that a text gives; a text of blanks gives the one without any options. -/
def ofText (text : String) : Except Error Config := do
  if (Text.trim text.toList).isEmpty then ofOptions {}
  else
    match Options.ofText text with
    | .ok options => ofOptions options
    | .error error => .error (.malformed error)

/-- The configuration that a file gives. -/
def ofFile (tree : FileTree) (path : Path) : Except Error Config :=
  match tree.readText path with
  | .ok text => ofText text
  | .error error => .error (.unreadable error)

/-! ## Questions to a configuration -/

/-- Whether any query can be excluded. -/
def exclusionEnabled (config : Config) : Bool :=
  !config.excludeQueries.isEmpty

/-- Whether the query with a name gets no hooks. -/
def excludes (config : Config) (name : String) : Bool :=
  config.excludeQueries.isMatch name

/-- Whether any query can have an infinite hook. -/
def infiniteEnabled (config : Config) : Bool :=
  !config.infiniteQueries.isEmpty

/-- Whether the query with a name has an infinite hook too. -/
def wantsInfinite (config : Config) (name : String) : Bool :=
  config.infiniteQueries.isMatch name

end Config

end QueryHooks
