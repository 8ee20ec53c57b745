/-!
# Affixes of type names

The text put in front of and behind every type name that is made up for generated code.
-/

namespace QueryHooks

/-- A prefix and a suffix for the names of types. -/
structure Affixes where
  before : String := ""
  after : String := ""
  deriving DecidableEq, Repr, Inhabited

namespace Affixes

/-- A name between the two affixes. -/
def wrap (affixes : Affixes) (name : String) : String :=
  affixes.before ++ name ++ affixes.after

/-- A name between affixes, character by character. -/
@[simp]
theorem toList_wrap (affixes : Affixes) (name : String) :
    (affixes.wrap name).toList = affixes.before.toList ++ name.toList ++ affixes.after.toList := by
  simp [wrap]

/-- The same affixes around two names tell these apart. -/
theorem wrap_inj {affixes : Affixes} {name other : String} :
    affixes.wrap name = affixes.wrap other ↔ name = other := by
  rw [← String.toList_inj, toList_wrap, toList_wrap, List.append_left_inj, List.append_right_inj,
    String.toList_inj]

end Affixes

end QueryHooks
