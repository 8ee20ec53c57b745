/-!
# Options

The options as they are given, before it is checked whether they make sense.  They are set one at a
time, and the last setting of an option counts.

Main definitions: `PatternSetting`, `OptionName`, `Options`, `Setting`, `Options.ofSettings`.
-/

namespace QueryHooks

/-- The value of an option that takes patterns. -/
inductive PatternSetting where
  | single (pattern : String)
  | multiple (patterns : List String)
  deriving DecidableEq, Repr

/-- The patterns of a setting that are not empty. -/
def PatternSetting.patterns : PatternSetting → List String
  | single pattern => [pattern].filter (!·.isEmpty)
  | multiple patterns => patterns.filter (!·.isEmpty)

/-- The options. -/
inductive OptionName where
  | excludeQueries
  | infiniteQueries
  | autogenKey
  | rawResponse
  | typesPrefix
  | typesSuffix
  | useTypeImports
  deriving DecidableEq, Repr

/-- The name of an option as it is written in a configuration. -/
def OptionName.text : OptionName → String
  | excludeQueries => "excludeQueries"
  | infiniteQueries => "infiniteQueries"
  | autogenKey => "autogenKey"
  | rawResponse => "rawResponse"
  | typesPrefix => "typesPrefix"
  | typesSuffix => "typesSuffix"
  | useTypeImports => "useTypeImports"

/-- The option that a key means; three of them have a second name. -/
def OptionName.ofKey? (key : String) : Option OptionName :=
  match key with
  | "excludeQueries" => some excludeQueries
  | "infiniteQueries" => some infiniteQueries
  | "useSWRInfinite" => some infiniteQueries
  | "autogenKey" => some autogenKey
  | "autogenSWRKey" => some autogenKey
  | "rawResponse" => some rawResponse
  | "rawRequest" => some rawResponse
  | "typesPrefix" => some typesPrefix
  | "typesSuffix" => some typesSuffix
  | "useTypeImports" => some useTypeImports
  | _ => none

/-- The values of all options. -/
structure Options where
  excludeQueries? : Option PatternSetting := none
  infiniteQueries? : Option PatternSetting := none
  autogenKey : Bool := false
  rawResponse : Bool := false
  typesPrefix : String := ""
  typesSuffix : String := ""
  useTypeImports : Bool := false
  deriving DecidableEq, Repr, Inhabited

/-- A value for one of the options. -/
inductive Setting where
  | excludeQueries (value? : Option PatternSetting)
  | infiniteQueries (value? : Option PatternSetting)
  | autogenKey (value : Bool)
  | rawResponse (value : Bool)
  | typesPrefix (value : String)
  | typesSuffix (value : String)
  | useTypeImports (value : Bool)
  deriving DecidableEq, Repr

/-- The option that a setting is for. -/
def Setting.name : Setting → OptionName
  | excludeQueries _ => .excludeQueries
  | infiniteQueries _ => .infiniteQueries
  | autogenKey _ => .autogenKey
  | rawResponse _ => .rawResponse
  | typesPrefix _ => .typesPrefix
  | typesSuffix _ => .typesSuffix
  | useTypeImports _ => .useTypeImports

namespace Options

/-- Set an option, in place of the value that it had. -/
def set (options : Options) : Setting → Options
  | .excludeQueries value? => { options with excludeQueries? := value? }
  | .infiniteQueries value? => { options with infiniteQueries? := value? }
  | .autogenKey value => { options with autogenKey := value }
  | .rawResponse value => { options with rawResponse := value }
  | .typesPrefix value => { options with typesPrefix := value }
  | .typesSuffix value => { options with typesSuffix := value }
  | .useTypeImports value => { options with useTypeImports := value }

/-- The options after some settings in order. -/
def ofSettings (settings : List Setting) : Options :=
  settings.foldl set {}

end Options

end QueryHooks
