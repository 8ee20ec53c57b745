import QueryHooks.Config.Basic

/-!
# Imports

The imports that a module needs under a configuration.
-/

namespace QueryHooks.Config

/-- The keyword of an import that is used for types only. -/
def typeImport (config : Config) : String :=
  if config.useTypeImports then "import type" else "import"

/-- The import lines of the module, in a fixed order. -/
def imports (config : Config) : List String :=
  (config.typeImport ++ " \x7b ClientError \x7d from 'graphql-request/dist/types';") ::
    if config.useTypeImports then
      ["import type \x7b SWRConfiguration as SWRConfigInterface, " ++
        "Key as SWRKeyInterface \x7d from 'swr';"] ++
        (if config.infiniteEnabled then
          ["import type \x7b SWRInfiniteConfiguration \x7d from 'swr/infinite';"] else []) ++
        ["import useSWR from 'swr';"] ++
        (if config.infiniteEnabled then ["import useSWRInfinite from 'swr/infinite';"] else [])
    else
      ["import useSWR, \x7b SWRConfiguration as SWRConfigInterface, " ++
        "Key as SWRKeyInterface \x7d from 'swr';"]
        ++ (if config.infiniteEnabled then
          ["import useSWRInfinite, \x7b SWRInfiniteConfiguration \x7d from 'swr/infinite';"]
        else [])

end QueryHooks.Config
