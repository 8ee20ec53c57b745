import QueryHooks.Casing

/-!
# Names of hooks

Each operation has at most two hooks: the standard one, which fetches once, and the infinite one,
which fetches page after page.
-/

namespace QueryHooks

/-- Which of the two hooks of an operation is meant. -/
inductive Hook.Variant where
  /-- The hook that fetches the result once. -/
  | standard
  /-- The hook that fetches the result page after page. -/
  | infinite
  deriving DecidableEq, Repr

/-- What the name of a hook ends in, after the name of its operation. -/
def Hook.Variant.ending : Hook.Variant → String
  | standard => ""
  | infinite => "Infinite"

/-- The name of a hook of an operation: `getUser` has `useGetUser` and `useGetUserInfinite`. -/
def hookName (operationName : String) (variant : Hook.Variant) : String :=
  "use" ++ Casing.pascal operationName ++ variant.ending

end QueryHooks
