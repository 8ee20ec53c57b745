import QueryHooks.Affixes
import QueryHooks.Hook.Basic
import QueryHooks.Operation.Basic

/-!
# Generation of hooks

The hooks of one operation under the settings that hold for it: the standard hook, and behind it the
infinite hook if it is asked for.

Main definitions: `Hook.Settings`, `Hook.standard`, `Hook.infinite`, `hooksOf`.
-/

namespace QueryHooks

/-- What shapes the hooks of one operation. -/
structure Hook.Settings where
  /-- The cache key is made from the operation and its variables; the caller gives none. -/
  autogenKey : Bool := false
  /-- The infinite hook is generated too. -/
  infinite : Bool := false
  /-- The hooks give the whole response and not only its data. -/
  rawResponse : Bool := false
  /-- The affixes of the types that the module declares. -/
  affixes : Affixes := {}
  deriving DecidableEq, Repr

namespace Hook

/-- The name, without affixes, of the type of a function that chooses the key of a page. -/
def keyLoader : String := "SWRInfiniteKeyLoader"

/-- The type of what a hook gives back. -/
def responseType (operation : Operation) (settings : Settings) : String :=
  if settings.rawResponse then "SWRRawResponse<" ++ operation.resultType ++ ">"
  else operation.resultType

/-- The key made from the name of the operation and the values of its variables. -/
def generatedKey (operation : Operation) : String :=
  "genKey<" ++ operation.variablesType ++ ">('" ++ Casing.pascal operation.name ++ "', variables)"

/-- The parameter for the variables, which is optional when all of them may be left out. -/
def variablesParameter (operation : Operation) (type : String) : Parameter :=
  ⟨"variables", operation.omittable, type⟩

/--
The hook that fetches the result of an operation once.  Where the key is made from the variables,
giving `null` for them puts the fetch off.
-/
def standard (operation : Operation) (settings : Settings) : Hook where
  name := hookName operation.name .standard
  operationName := operation.name
  variant := .standard
  parameters :=
    (if settings.autogenKey then [] else [.required "key" "SWRKeyInterface"]) ++
      [variablesParameter operation (operation.variablesType ++ " | null"),
        .optionally "config"
          ("SWRConfigInterface<" ++ responseType operation settings ++ ", ClientError>")]
  body :=
    ["  return useSWR<" ++ responseType operation settings ++ ", ClientError>(" ++
      (if settings.autogenKey then "variables && " ++ generatedKey operation else "key") ++
      ", () => sdk." ++ operation.name ++ "(variables!), config);"]

/-- The hook that fetches the result of an operation page after page. -/
def infinite (operation : Operation) (settings : Settings) : Hook :=
  let types := "<" ++ responseType operation settings ++ ", " ++ operation.variablesType ++ ">"
  { name := hookName operation.name .infinite
    operationName := operation.name
    variant := .infinite
    parameters :=
      (if settings.autogenKey then [] else [.required "id" "string"]) ++
        [.required "getKey" (settings.affixes.wrap keyLoader ++ types),
          variablesParameter operation operation.variablesType,
          .optionally "config"
            ("SWRInfiniteConfiguration<" ++ responseType operation settings ++ ", ClientError>")]
    body :=
      ["  return useSWRInfinite<" ++ responseType operation settings ++ ", ClientError>(",
        "    utilsForInfinite.generateGetKey" ++ types ++ "(" ++
          (if settings.autogenKey then generatedKey operation else "id") ++ ", getKey),",
        "    utilsForInfinite.generateFetcher" ++ types ++ "(sdk." ++ operation.name ++
          ", variables),",
        "    config);"] }

end Hook

/-- The hooks of an operation, the standard one first. -/
def hooksOf (operation : Operation) (settings : Hook.Settings) : List Hook :=
  Hook.standard operation settings ::
    (if settings.infinite then [Hook.infinite operation settings] else [])

end QueryHooks
