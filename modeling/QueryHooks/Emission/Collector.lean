import QueryHooks.Operation.Basic

/-!
# Collected operations

Operations are collected in the order in which they are met.  None is left out at this stage,
whatever its kind and its name.
-/

namespace QueryHooks

/-- The operations recorded so far. -/
structure Collector where
  operations : List Operation := []
  deriving DecidableEq, Repr

namespace Collector

/-- Record an operation after those recorded before. -/
def record (collector : Collector) (operation : Operation) : Collector :=
  ⟨collector.operations ++ [operation]⟩

/-- Record some operations in order. -/
def recordAll (collector : Collector) (operations : List Operation) : Collector :=
  operations.foldl record collector

/-- The number of recorded operations. -/
def size (collector : Collector) : Nat :=
  collector.operations.length

/-- Whether nothing was recorded. -/
def isEmpty (collector : Collector) : Bool :=
  collector.operations.isEmpty

/-- Whether two collectors hold equal operations in the same order. -/
def same (collector other : Collector) : Bool :=
  collector.operations.isEqv other.operations Operation.same

/-- A recorded operation is put behind those before it. -/
@[simp]
theorem operations_record (collector : Collector) (operation : Operation) :
    (collector.record operation).operations = collector.operations ++ [operation] :=
  rfl

/-- Recorded operations are put behind those before them, in order. -/
@[simp]
theorem operations_recordAll (collector : Collector) (operations : List Operation) :
    (collector.recordAll operations).operations = collector.operations ++ operations := by
  induction operations generalizing collector with
  | nil => simp [recordAll]
  | cons operation operations ih =>
    simpa [recordAll] using ih (collector.record operation)

end Collector

end QueryHooks
