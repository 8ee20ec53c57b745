import QueryHooks.Config.Basic
import QueryHooks.Hook.Generation

/-!
# Eligible operations

Which operations get hooks under a configuration, and with which settings.

Main definitions: `Config.isExcluded`, `Config.eligible`, `Config.settingsFor`.
-/

namespace QueryHooks.Config

/-- Whether an operation gets no hooks although it is a query. -/
def isExcluded (config : Config) (operation : Operation) : Bool :=
  operation.kind == .query && config.exclusionEnabled && config.excludes operation.name

/-- Whether an operation gets hooks: it is a query, and no pattern excludes it. -/
def isEligible (config : Config) (operation : Operation) : Bool :=
  operation.kind == .query && !(config.exclusionEnabled && config.excludes operation.name)

/-- The operations that get hooks, in their order. -/
def eligible (config : Config) (operations : List Operation) : List Operation :=
  operations.filter config.isEligible

/-- The settings for the hooks of an operation. -/
def settingsFor (config : Config) (operation : Operation) : Hook.Settings where
  autogenKey := config.autogenKey
  infinite := config.infiniteEnabled && config.wantsInfinite operation.name
  rawResponse := config.rawResponse
  affixes := config.affixes

/-- The hooks of the operations that get any, in order. -/
def hooksFor (config : Config) (operations : List Operation) : List Hook :=
  (config.eligible operations).flatMap fun operation =>
    hooksOf operation (config.settingsFor operation)

end QueryHooks.Config
