import QueryHooks.Config.Basic
import QueryHooks.Hook.Generation
import QueryHooks.Text.Lines

/-!
# Assembly of a module

The hooks are put together with the declarations that they need.  The parts of a module come in a
fixed order, and which of the optional ones there are depends on the configuration alone.

Main definitions: `indent`, `bundle`, `Config.assemble`.
-/

namespace QueryHooks

/-! ## Indentation -/

/-- A line behind two spaces for each level, unless it is empty. -/
def indentLine (levels : Nat) (line : List Char) : List Char :=
  if line.isEmpty then [] else List.replicate (2 * levels) ' ' ++ line

/-- A text with all its lines indented by some levels. -/
def indent (levels : Nat) (source : String) : String :=
  String.ofList (Text.unlines ((Text.lines source.toList).map (indentLine levels)))

/-! ## Parts of a module -/

/-- Lines of a part, one below the other. -/
def joinLines (lines : List String) : String :=
  "\n".intercalate lines

/-- The type of a whole response. -/
def rawResponseType : String :=
  "type SWRRawResponse<Data = any> = \x7b data?: Data | undefined; " ++
    "extensions?: any; headers: Headers; status: number; " ++
    "errors?: GraphQLError[] | undefined; \x7d;"

/-- The type of a function that chooses the key of a page, under its name with affixes. -/
def keyLoaderType (affixes : Affixes) : String :=
  joinLines
    ["export type " ++ affixes.wrap Hook.keyLoader ++ "<Data = unknown, Variables = unknown> = (",
      "  index: number,",
      "  previousPageData: Data | null",
      ") => [keyof Variables, Variables[keyof Variables] | null] | null;"]

/-- The head of the function that makes the bundle, and its first statement. -/
def factoryOpening : String :=
  joinLines
    ["export function getSdkWithHooks(client: GraphQLClient, " ++
        "withWrapper: SdkFunctionWrapper = defaultWrapper) \x7b",
      "  const sdk = getSdk(client, withWrapper);"]

/-- What all infinite hooks share. -/
def infiniteUtilities (affixes : Affixes) : String :=
  joinLines
    ["  const utilsForInfinite = \x7b",
      "    generateGetKey: <Data = unknown, Variables = unknown>(",
      "      id: string,",
      "      getKey: " ++ affixes.wrap Hook.keyLoader ++ "<Data, Variables>",
      "    ) => (pageIndex: number, previousData: Data | null) => \x7b",
      "      const key = getKey(pageIndex, previousData)",
      "      return key ? [id, ...key] : null",
      "    \x7d,",
      "    generateFetcher: <Query = unknown, Variables = unknown>" ++
        "(query: (variables: Variables) => Promise<Query>, variables?: Variables) => (",
      "        id: string,",
      "        fieldName: keyof Variables,",
      "        fieldValue: Variables[typeof fieldName]",
      "      ) => query(\x7b ...variables, [fieldName]: fieldValue \x7d as Variables)",
      "  \x7d"]

/-- The function that makes a key from a name and variables. -/
def keyGenerator : String :=
  "  const genKey = <V extends Record<string, unknown> = Record<string, unknown>>" ++
    "(name: string, object: V = \x7b\x7d as V): SWRKeyInterface => " ++
    "[name, ...Object.keys(object).sort().map(key => object[key])];"

/-- The hooks as they stand in the bundle, with commas between them. -/
def hookLines (hooks : List Hook) : String :=
  ",\n".intercalate (hooks.map fun hook => indent 2 hook.source)

/-- The bundle that the function gives back, up to the end of the function. -/
def bundle (hooks : List Hook) : String :=
  joinLines
    (["  return \x7b", "    ...sdk,"] ++ (if hooks.isEmpty then [] else [hookLines hooks]) ++
      ["  \x7d;", "\x7d"])

/-- The type of the bundle, under its name with affixes. -/
def bundleType (affixes : Affixes) : String :=
  "export type " ++ affixes.wrap "SdkWithHooks" ++ " = ReturnType<typeof getSdkWithHooks>;"

/-! ## Modules -/

/-- The parts of the module of some hooks, in order. -/
def Config.parts (config : Config) (hooks : List Hook) : List String :=
  (if config.rawResponse then [rawResponseType] else []) ++
    (if config.infiniteEnabled then [keyLoaderType config.affixes] else []) ++
    [factoryOpening] ++
    (if config.infiniteEnabled then [infiniteUtilities config.affixes] else []) ++
    (if config.autogenKey then [keyGenerator] else []) ++
    [bundle hooks, bundleType config.affixes]

/-- The module of some hooks, without its imports. -/
def Config.assemble (config : Config) (hooks : List Hook) : String :=
  joinLines (config.parts hooks)

end QueryHooks
