import QueryHooks.Operation.Draft
import QueryHooks.Proofs.Repetition

/-!
# Runs of a draft

Variables are added to a draft one after the other, and the first whose name is taken ends it.

Main results:

- Theorem `Operation.Draft.addVariables_eq_ok`: variables with distinct names are all added, in
  order.
- Theorem `Operation.Draft.addVariables_eq_error`: otherwise the first repetition is reported.
-/

namespace QueryHooks.Operation.Draft

variable {draft : Draft}

/-- A draft declares the names of its variables. -/
theorem declares_iff {name : String} :
    draft.declares name = true ↔ name ∈ draft.declared.map Variable.name := by
  simp [declares]

/-- A variable whose name is not taken is added behind the others. -/
theorem addVariable_eq_ok {v : Variable} (h : ((draft.declared ++ [v]).map Variable.name).Nodup) :
    draft.addVariable v = .ok { draft with declared := draft.declared ++ [v], distinct := h } := by
  have hfree : draft.declares v.name = false := by
    rw [Bool.eq_false_iff, ne_eq, declares_iff]
    intro hmem
    rw [List.map_append, List.nodup_append] at h
    exact h.2.2 _ hmem _ (by simp) rfl
  rw [addVariable, dif_neg (by simp [hfree])]

/-- A variable whose name is taken is refused. -/
theorem addVariable_eq_error {v : Variable} (h : v.name ∈ draft.declared.map Variable.name) :
    draft.addVariable v = .error ⟨draft.name, v.name⟩ := by
  rw [addVariable, dif_pos (declares_iff.2 h)]

/-- Variables with distinct names are all added, behind those added before. -/
theorem addVariables_eq_ok (draft : Draft) {vs : List Variable}
    (h : ((draft.declared ++ vs).map Variable.name).Nodup) :
    draft.addVariables vs = .ok { draft with declared := draft.declared ++ vs, distinct := h } := by
  induction vs generalizing draft with
  | nil => simp [addVariables_nil]
  | cons v vs ih =>
    have hassoc : draft.declared ++ v :: vs = (draft.declared ++ [v]) ++ vs := by simp
    have hfirst : ((draft.declared ++ [v]).map Variable.name).Nodup := by
      rw [hassoc, List.map_append, List.nodup_append] at h
      exact h.1
    rw [addVariables, List.foldlM_cons, addVariable_eq_ok hfirst]
    change addVariables _ vs = _
    rw [ih _ (by rw [← hassoc]; exact h)]
    simp

/-- To a draft without variables, the first variable with a repeated name cannot be added. -/
theorem addVariables_eq_error (draft : Draft) {vs : List Variable} {first second : Nat}
    {repeated : Variable} (hempty : draft.declared = [])
    (h : FirstRepetition (vs.map Variable.name) first second)
    (hrepeated : vs[second]? = some repeated) :
    draft.addVariables vs = .error ⟨draft.name, repeated.name⟩ := by
  have hnodup : ((draft.declared ++ vs.take second).map Variable.name).Nodup := by
    rw [hempty, List.nil_append, List.map_take]
    exact h.nodup_take
  have htaken : repeated.name ∈ (draft.declared ++ vs.take second).map Variable.name := by
    rw [hempty, List.nil_append, List.map_take]
    apply List.mem_of_getElem?
    rw [List.getElem?_take_of_lt h.first_lt, h.same, List.getElem?_map, hrepeated]
    rfl
  rw [eq_take_append_cons_drop hrepeated, addVariables_append, addVariables_eq_ok draft hnodup]
  change addVariables _ (repeated :: vs.drop (second + 1)) = _
  rw [addVariables, List.foldlM_cons, addVariable_eq_error htaken]
  rfl

end QueryHooks.Operation.Draft
