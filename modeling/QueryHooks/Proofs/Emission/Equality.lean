import Mathlib.Data.List.Perm.Subperm
import QueryHooks.Proofs.Config.Making
import QueryHooks.Proofs.Emission.Influence

/-!
# Equal emitters

Two emitters are taken for equal if they have the same options and the same operations.  Of the
patterns only the texts are compared and not what they were read as, and the variables of an
operation are compared in any order.  Neither makes a difference to what is emitted: a text is read
in one way only, and a hook shows of the variables only whether all of them may be left out.

Main results:

- Theorem `Operation.sameVariables_iff`: variables are the same if they are a permutation of each
  other.
- Theorem `Operation.resembles_of_same`: equal operations have the same hooks.
- Theorem `Emitter.equal_emitters_emit_alike`: equal emitters select the same names and emit the
  same.
-/

namespace QueryHooks

/-! ## Operations -/

namespace Operation

variable {operation other : Operation}

/-- No variable of an operation is declared twice. -/
theorem nodup_declared (operation : Operation) : operation.declared.Nodup :=
  operation.distinct.of_map

/-- Two operations declare the same variables exactly if they declare them in some order. -/
theorem sameVariables_iff :
    operation.sameVariables other = true ↔ operation.declared.Perm other.declared := by
  simp only [sameVariables, Bool.and_eq_true, List.all_eq_true, beq_iff_eq]
  constructor
  · rintro ⟨hlength, hfound⟩
    have hsubset : operation.declared ⊆ other.declared :=
      fun v hv => List.mem_of_find?_eq_some (hfound v hv)
    have hsubperm := List.subperm_of_subset operation.nodup_declared hsubset
    exact hsubperm.perm_of_length_le (Nat.le_of_eq hlength.symm)
  · intro hperm
    exact ⟨hperm.length_eq, fun v hv => find?_eq_some_iff.2 ⟨hperm.mem_iff.1 hv, rfl⟩⟩

/-- Equal operations agree in all that their hooks show of them, and both are queries or none is. -/
theorem resembles_of_same (h : operation.same other = true) :
    operation.kind = other.kind ∧ operation.Resembles other := by
  simp only [same, Bool.and_eq_true, beq_iff_eq] at h
  obtain ⟨⟨⟨⟨hkind, hname⟩, hresult⟩, hvariables⟩, hvariablesType⟩ := h
  have homittable : operation.omittable = other.omittable :=
    (sameVariables_iff.1 hvariables).all_eq
  exact ⟨hkind, hname, hresult, hvariablesType, homittable⟩

end Operation

/-! ## Emitters -/

/-- Lists are equal up to a relation if their items are, one by one. -/
theorem forall₂_of_isEqv {α : Type} {same : α → α → Bool} {items others : List α}
    (h : items.isEqv others same = true) :
    List.Forall₂ (fun item other => same item other = true) items others := by
  induction items generalizing others with
  | nil =>
    cases others with
    | nil => exact .nil
    | cons other others => simp at h
  | cons item items ih =>
    cases others with
    | nil => simp at h
    | cons other others =>
      rw [List.isEqv_cons_cons, Bool.and_eq_true] at h
      exact .cons h.1 (ih h.2)

/-- Of equal operations the same ones are selected. -/
theorem Config.selected_resembles (config : Config) {operations others : List Operation}
    (h : operations.isEqv others Operation.same = true) :
    List.Forall₂ Operation.Resembles (config.selected operations) (config.selected others) := by
  have hselects : (Relator.LiftFun (fun operation other => Operation.same operation other = true)
      (· ↔ ·)) (fun operation => config.selects operation = true)
      (fun operation => config.selects operation = true) := by
    intro operation other hsame
    obtain ⟨hkind, hresembles⟩ := Operation.resembles_of_same hsame
    have hselected : config.selects operation = config.selects other := by
      rw [selects, selects, hkind, hresembles.name]
    exact iff_of_eq (congrArg (· = true) hselected)
  exact (List.rel_filter hselects (forall₂_of_isEqv h)).imp
    fun _ _ hsame => (Operation.resembles_of_same hsame).2

/--
Equal emitters have configurations that exclude the same names and page the same names, and they
generate the same hooks and emit the same module, or fail with the same collision.
-/
theorem Emitter.equal_emitters_emit_alike {emitter other : Emitter}
    (h : emitter.same other = true) :
    (∀ name, emitter.config.excludes name = other.config.excludes name ∧
      emitter.config.wantsInfinite name = other.config.wantsInfinite name) ∧
    emitter.hooks = other.hooks ∧ emitter.emit = other.emit := by
  rw [same, Bool.and_eq_true] at h
  obtain ⟨hcollector, hequal⟩ := h
  have hconfig : emitter.config = other.config := eq_of_beq hequal
  have hhooks : emitter.recordedHooks = other.recordedHooks := by
    rw [recordedHooks, recordedHooks, hconfig]
    exact Config.hooksFor_eq_of_resembles (Config.selected_resembles _ hcollector)
  refine ⟨?_, ?_, emit_eq_of_recordedHooks_eq hconfig hhooks⟩
  · intro name
    rw [hconfig]
    exact ⟨rfl, rfl⟩
  · rw [hooks_eq_foldlM, hooks_eq_foldlM, hhooks]

/-- A query with two variables that may both be left out, in some order. -/
def usersPage (declared : List Variable) (distinct : (declared.map Variable.name).Nodup) :
    Operation where
  kind := .query
  name := "users"
  resultType := "UsersQuery"
  variablesType := "UsersQueryVariables"
  declared
  distinct

/--
Emitters with the patterns given in two ways and the variables declared in two orders emit the same.
-/
theorem usersPage_emits_alike :
    ∃ (config other : Config) (operation reordered : Operation),
      Config.ofOptions
        { excludeQueries? := some (.single "old*"), autogenKey := true } = .ok config ∧
      Config.ofOptions
        { excludeQueries? := some (.multiple ["", "old*"]), autogenKey := true } = .ok other ∧
      operation.declared ≠ reordered.declared ∧
      (Emitter.mk config ⟨[operation]⟩).same ⟨other, ⟨[reordered]⟩⟩ = true ∧
      config.excludes "old_users" = other.excludes "old_users" ∧
      (Emitter.mk config ⟨[operation]⟩).emit = (Emitter.mk other ⟨[reordered]⟩).emit := by
  have hparse := excludingOld.excludeQueries.parsed _ (List.mem_singleton_self _)
  have hconfig (setting : PatternSetting) (h : setting.given.filter (!·.isEmpty) = ["old*"]) :
      Config.ofOptions { excludeQueries? := some setting, autogenKey := true } =
        .ok excludingOld := by
    have hread : PatternSet.readAll setting.given = .ok excludingOld.excludeQueries.globs := by
      rw [← PatternSet.readAll_filter, h]
      simp only [PatternSet.readAll, hparse]
      rfl
    have hset : PatternSet.ofList setting.given = .ok excludingOld.excludeQueries :=
      PatternSet.ofList_eq_ok_iff.2 ⟨hread, List.forall_mem_singleton.2 (by decide)⟩
    exact Config.ofOptions_eq_ok_iff.2
      ⟨_, ∅, rfl, rfl, Config.readPatterns_eq_ok_iff.2 hset, rfl, rfl⟩
  have hsame : (Emitter.mk excludingOld
      ⟨[usersPage [⟨"first", .named "Int" false, some "10"⟩, ⟨"after", .named "String" true, none⟩]
        (by decide)]⟩).same
      ⟨excludingOld,
        ⟨[usersPage [⟨"after", .named "String" true, none⟩,
          ⟨"first", .named "Int" false, some "10"⟩]
          (by decide)]⟩⟩ = true := by
    decide
  obtain ⟨hnames, -, hemit⟩ := Emitter.equal_emitters_emit_alike hsame
  exact ⟨excludingOld, excludingOld, _, _, hconfig (.single "old*") (by decide),
    hconfig (.multiple ["", "old*"]) (by decide), by decide, hsame, (hnames "old_users").1, hemit⟩

end QueryHooks
