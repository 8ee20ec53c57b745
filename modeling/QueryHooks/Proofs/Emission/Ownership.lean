import Mathlib.Data.List.Induction
import QueryHooks.Emission.Emitter
import QueryHooks.Proofs.Repetition

/-!
# Ownership of hook names

A generation keeps beside its hooks the names that are taken and the operations that took them.  As
long as it goes on, the two lists agree: the taken names are exactly those of the hooks, which are
distinct, and each name belongs to the operation of its one hook.  So a generation goes on up to the
first repetition among the names of all hooks, and it fails there with the operation of the earlier
hook.

Main results:

- Definition `Generation.ofHooks`: the generation that has taken some hooks with distinct names.
- Theorem `Generation.foldlM_add_eq_ok`: hooks with distinct names are all taken, in their order.
- Theorem `Generation.foldlM_add_eq_error`: otherwise the first repetition is reported.
- Theorem `Emitter.hooks_eq_ok_iff`: an emitter has hooks exactly if all names are distinct.
- Theorem `Emitter.generation_stops_at_first_repeated_name`: what an emitter gives, in terms of the
  flat list of all hooks with their operations.
-/

namespace QueryHooks

/-! ## Hooks with their operations -/

/-- The hooks of the operations that get any, in order, each beside its operation. -/
def Config.ownedHooks (config : Config) (operations : List Operation) : List (Hook × Operation) :=
  (config.eligible operations).flatMap fun operation =>
    (hooksOf operation (config.settingsFor operation)).map fun hook => (hook, operation)

/-- Without the operations, these are the hooks of a configuration. -/
theorem Config.map_fst_ownedHooks (config : Config) (operations : List Operation) :
    (config.ownedHooks operations).map Prod.fst = config.hooksFor operations := by
  simp [ownedHooks, hooksFor, List.map_flatMap, Function.comp_def]

/-- A hook carries the name of the operation that it is generated for. -/
theorem operationName_of_mem_hooksOf {operation : Operation} {settings : Hook.Settings}
    {hook : Hook}
    (h : hook ∈ hooksOf operation settings) : hook.operationName = operation.name := by
  unfold hooksOf at h
  rcases List.mem_cons.1 h with rfl | hrest
  · rfl
  · split at hrest
    · rw [List.mem_singleton.1 hrest]
      rfl
    · exact absurd hrest List.not_mem_nil

/-- In the list of all hooks, each one carries the name of the operation beside it. -/
theorem Config.operationName_of_mem_ownedHooks {config : Config} {operations : List Operation}
    {entry : Hook × Operation} (h : entry ∈ config.ownedHooks operations) :
    entry.1.operationName = entry.2.name := by
  obtain ⟨operation, _, hentry⟩ := List.mem_flatMap.1 h
  obtain ⟨hook, hhook, rfl⟩ := List.mem_map.1 hentry
  exact operationName_of_mem_hooksOf hhook

/-! ## The invariant of a generation -/

namespace Generation

/-- The generation that has taken some hooks: each name belongs to the operation of its hook. -/
def ofHooks (hooks : List Hook) : Generation where
  hooks := hooks
  owners := (hooks.map fun hook => (hook.name, hook.operationName)).reverse

@[simp]
theorem ofHooks_nil : ofHooks [] = {} :=
  rfl

/-- A name is free if no hook has it. -/
theorem lookup_ofHooks_eq_none {hooks : List Hook} {name : String}
    (h : name ∉ hooks.map Hook.name) : (ofHooks hooks).owners.lookup name = none := by
  rw [List.lookup_eq_none_iff]
  intro entry hentry
  obtain ⟨hook, hhook, rfl⟩ := List.mem_map.1 (List.mem_reverse.1 hentry)
  have hne : name ≠ hook.name := by
    rintro rfl
    exact h (List.mem_map_of_mem hhook)
  simpa using hne

/-- Where names are distinct, the name of a hook belongs to the operation of that hook. -/
theorem lookup_ofHooks_of_mem {hooks : List Hook} {hook : Hook}
    (hnodup : (hooks.map Hook.name).Nodup) (hmem : hook ∈ hooks) :
    (ofHooks hooks).owners.lookup hook.name = some hook.operationName := by
  induction hooks using List.reverseRecOn with
  | nil => exact absurd hmem List.not_mem_nil
  | append_singleton earlier last ih =>
    rw [List.map_append, List.nodup_append] at hnodup
    have howners : (ofHooks (earlier ++ [last])).owners =
        (last.name, last.operationName) :: (ofHooks earlier).owners := by
      simp [ofHooks]
    rw [howners]
    rcases List.mem_append.1 hmem with hearlier | hlast
    · have hne : hook.name ≠ last.name :=
        hnodup.2.2 _ (List.mem_map_of_mem hearlier) _ (by simp)
      rw [List.lookup_cons, beq_eq_false_iff_ne.2 hne]
      exact ih hnodup.1 hearlier
    · rw [List.mem_singleton.1 hlast]
      exact List.lookup_cons_self

/-- A hook whose name is free is taken. -/
theorem add_ofHooks_of_free {hooks : List Hook} {hook : Hook}
    (h : hook.name ∉ hooks.map Hook.name) :
    (ofHooks hooks).add hook = .ok (ofHooks (hooks ++ [hook])) := by
  rw [add, lookup_ofHooks_eq_none h]
  simp [ofHooks]

/-- A hook with the name of an earlier one is refused, and both their operations are named. -/
theorem add_ofHooks_of_taken {hooks : List Hook} {first hook : Hook}
    (hnodup : (hooks.map Hook.name).Nodup) (hmem : first ∈ hooks) (hname : first.name = hook.name) :
    (ofHooks hooks).add hook =
      .error ⟨first.operationName, hook.operationName, hook.name⟩ := by
  rw [add, ← hname, lookup_ofHooks_of_mem hnodup hmem]

/-! ## Runs of a generation -/

/-- Hooks with distinct names are all taken, behind those that were taken before. -/
theorem foldlM_add_eq_ok (taken hooks : List Hook) (h : ((taken ++ hooks).map Hook.name).Nodup) :
    hooks.foldlM add (ofHooks taken) = .ok (ofHooks (taken ++ hooks)) := by
  induction hooks generalizing taken with
  | nil => simp [pure, Except.pure]
  | cons hook hooks ih =>
    have hfree : hook.name ∉ taken.map Hook.name := by
      rw [List.map_append, List.nodup_append] at h
      intro hmem
      exact h.2.2 _ hmem _ (by simp) rfl
    have hassoc : taken ++ hook :: hooks = (taken ++ [hook]) ++ hooks := by simp
    rw [hassoc] at h ⊢
    rw [List.foldlM_cons, add_ofHooks_of_free hfree]
    exact ih _ h

/-- Where names repeat, the hook at the first repetition is refused. -/
theorem foldlM_add_eq_error {hooks : List Hook} {first second : Nat} {owner refused : Hook}
    (h : FirstRepetition (hooks.map Hook.name) first second) (howner : hooks[first]? = some owner)
    (hrefused : hooks[second]? = some refused) :
    hooks.foldlM add {} = .error ⟨owner.operationName, refused.operationName, refused.name⟩ := by
  have hnodup : ((hooks.take second).map Hook.name).Nodup := by
    rw [List.map_take]
    exact h.nodup_take
  have hmem : owner ∈ hooks.take second := by
    apply List.mem_of_getElem?
    rw [List.getElem?_take_of_lt h.first_lt, howner]
  have hname : owner.name = refused.name := by
    have hsame := h.same
    rw [List.getElem?_map, List.getElem?_map, howner, hrefused] at hsame
    exact Option.some.inj hsame
  rw [eq_take_append_cons_drop hrefused, List.foldlM_append, ← ofHooks_nil,
    foldlM_add_eq_ok [] _ hnodup]
  change ((ofHooks (hooks.take second)).add refused >>= _) = _
  rw [add_ofHooks_of_taken hnodup hmem hname]
  rfl

/-- Going through operations and the hooks of each is going through all hooks. -/
theorem foldlM_addOperation (config : Config) (generation : Generation)
    (operations : List Operation) :
    operations.foldlM (addOperation config) generation =
      (operations.flatMap fun operation =>
        hooksOf operation (config.settingsFor operation)).foldlM add generation := by
  induction operations generalizing generation with
  | nil => rfl
  | cons operation operations ih =>
    rw [List.foldlM_cons, List.flatMap_cons, List.foldlM_append]
    exact bind_congr fun later => ih later

end Generation

/-! ## Emitters -/

namespace Emitter

variable {emitter : Emitter}

/-- The hooks of all recorded operations, in order, whether their names are distinct or not. -/
def recordedHooks (emitter : Emitter) : List Hook :=
  emitter.config.hooksFor emitter.collector.operations

/-- The hooks of an emitter come from one run over the hooks of all recorded operations. -/
theorem hooks_eq_foldlM (emitter : Emitter) :
    emitter.hooks = (emitter.recordedHooks.foldlM Generation.add {}).map Generation.hooks := by
  rw [hooks, Generation.foldlM_addOperation, recordedHooks, Config.hooksFor]

/-- An emitter whose hooks have distinct names has all of them. -/
theorem hooks_eq_ok (h : (emitter.recordedHooks.map Hook.name).Nodup) :
    emitter.hooks = .ok emitter.recordedHooks := by
  have hrun := Generation.foldlM_add_eq_ok [] emitter.recordedHooks h
  rw [hooks_eq_foldlM, ← Generation.ofHooks_nil, hrun]
  rfl

/-- An emitter with a repeated hook name fails at the first repetition. -/
theorem hooks_eq_error {first second : Nat} {owner refused : Hook}
    (h : FirstRepetition (emitter.recordedHooks.map Hook.name) first second)
    (howner : emitter.recordedHooks[first]? = some owner)
    (hrefused : emitter.recordedHooks[second]? = some refused) :
    emitter.hooks = .error ⟨owner.operationName, refused.operationName, refused.name⟩ := by
  rw [hooks_eq_foldlM, Generation.foldlM_add_eq_error h howner hrefused]
  rfl

/-- An emitter has hooks exactly if all their names are distinct, and then it has all of them. -/
theorem hooks_eq_ok_iff {hooks : List Hook} :
    emitter.hooks = .ok hooks ↔
      hooks = emitter.recordedHooks ∧ (emitter.recordedHooks.map Hook.name).Nodup := by
  constructor
  · intro h
    by_cases hnodup : (emitter.recordedHooks.map Hook.name).Nodup
    · rw [hooks_eq_ok hnodup] at h
      exact ⟨(Except.ok.inj h).symm, hnodup⟩
    · obtain ⟨first, second, hrepeat⟩ := exists_firstRepetition hnodup
      have hsecond := hrepeat.second_lt
      have hfirst := Nat.lt_trans hrepeat.first_lt hsecond
      rw [List.length_map] at hfirst hsecond
      rw [hooks_eq_error hrepeat (List.getElem?_eq_getElem hfirst)
        (List.getElem?_eq_getElem hsecond)] at h
      exact absurd h (by simp)
  · rintro ⟨rfl, hnodup⟩
    exact hooks_eq_ok hnodup

/-- Emission fails exactly if two hooks share a name. -/
theorem exists_emit_eq_error_iff :
    (∃ error, emitter.emit = .error error) ↔
      ¬(emitter.recordedHooks.map Hook.name).Nodup := by
  unfold emit
  constructor
  · rintro ⟨error, h⟩ hnodup
    rw [hooks_eq_ok hnodup] at h
    exact absurd h (by simp [Except.map])
  · intro hrepeats
    cases hhooks : emitter.hooks with
    | ok hooks => exact absurd (hooks_eq_ok_iff.1 hhooks).2 hrepeats
    | error error => exact ⟨error, rfl⟩

/-- Emission fails exactly as the generation of the hooks does. -/
theorem emit_eq_error_iff {error : HookCollision} :
    emitter.emit = .error error ↔ emitter.hooks = .error error := by
  unfold emit
  cases emitter.hooks <;> simp [Except.map]

/-- What is emitted lists the names of the hooks. -/
theorem exists_hooks_of_emit {module : Module} (h : emitter.emit = .ok module) :
    ∃ hooks, emitter.hooks = .ok hooks ∧ module.hookNames = hooks.map Hook.name := by
  unfold emit at h
  cases hhooks : emitter.hooks with
  | error error => simp [hhooks, Except.map] at h
  | ok hooks =>
    rw [hhooks] at h
    exact ⟨hooks, rfl, by rw [← Except.ok.inj h]⟩

/-- What is emitted is put together from the hooks and the configuration. -/
theorem eq_of_emit {hooks : List Hook} {module : Module} (hhooks : emitter.hooks = .ok hooks)
    (hemit : emitter.emit = .ok module) :
    module = ⟨emitter.config.imports, emitter.config.assemble hooks, hooks.map Hook.name⟩ := by
  rw [emit, hhooks] at hemit
  exact (Except.ok.inj hemit).symm

/-- An emitter with hooks has a module too. -/
theorem exists_emit_of_hooks {hooks : List Hook} (h : emitter.hooks = .ok hooks) :
    ∃ module, emitter.emit = .ok module := by
  rw [emit, h]
  exact ⟨_, rfl⟩

end Emitter

/-! ## The reported collision -/

/--
The error is about the first hook in a list with the name of an earlier one: it gives that name, the
operation of that hook, and the operation of the one earlier hook with the name.
-/
def IsFirstCollision (owned : List (Hook × Operation)) (error : HookCollision) : Prop :=
  ∃ first second owner refused,
    FirstRepetition (owned.map fun entry => entry.1.name) first second ∧
      owned[first]? = some owner ∧ owned[second]? = some refused ∧
      error.hookName = refused.1.name ∧ error.secondOperation = refused.2.name ∧
      error.firstOperation = owner.2.name

/-- The recorded hooks are the hooks with their operations, without these. -/
theorem Emitter.recordedHooks_eq (emitter : Emitter) :
    emitter.recordedHooks =
      (emitter.config.ownedHooks emitter.collector.operations).map Prod.fst := by
  rw [Config.map_fst_ownedHooks, recordedHooks]

/-- The names of the recorded hooks are those of the hooks with their owners. -/
theorem Emitter.names_recordedHooks (emitter : Emitter) :
    emitter.recordedHooks.map Hook.name =
      (emitter.config.ownedHooks emitter.collector.operations).map fun entry => entry.1.name := by
  rw [recordedHooks_eq, List.map_map]
  rfl

/-- An emitter that fails reports the first collision among all hooks. -/
theorem Emitter.isFirstCollision_of_hooks {emitter : Emitter} {error : HookCollision}
    (h : emitter.hooks = .error error) :
    IsFirstCollision (emitter.config.ownedHooks emitter.collector.operations) error := by
  have hrepeats : ¬(emitter.recordedHooks.map Hook.name).Nodup := by
    intro hnodup
    rw [hooks_eq_ok hnodup] at h
    exact absurd h (by simp)
  obtain ⟨first, second, hrepeat⟩ := exists_firstRepetition hrepeats
  have hfirst_lt := Nat.lt_trans hrepeat.first_lt hrepeat.second_lt
  have hsecond_lt := hrepeat.second_lt
  rw [List.length_map, recordedHooks_eq, List.length_map] at hfirst_lt hsecond_lt
  have howner := List.getElem?_eq_getElem hfirst_lt
  have hrefused := List.getElem?_eq_getElem hsecond_lt
  have hreported := hooks_eq_error hrepeat
    (by rw [recordedHooks_eq, List.getElem?_map, howner]; rfl)
    (by rw [recordedHooks_eq, List.getElem?_map, hrefused]; rfl)
  rw [hreported] at h
  rw [← Except.error.inj h]
  refine ⟨first, second, _, _, ?_, howner, hrefused, rfl, ?_, ?_⟩
  · rw [← names_recordedHooks]
    exact hrepeat
  · exact Config.operationName_of_mem_ownedHooks (List.getElem_mem hsecond_lt)
  · exact Config.operationName_of_mem_ownedHooks (List.getElem_mem hfirst_lt)

/--
An emitter goes through the flat list of all hooks with their operations.  It succeeds exactly if
their names are distinct, and then it gives all of them in order; otherwise it reports the first
hook with the name of an earlier one.
-/
theorem Emitter.generation_stops_at_first_repeated_name (emitter : Emitter) :
    let owned := emitter.config.ownedHooks emitter.collector.operations
    let names := owned.map fun entry => entry.1.name
    ((∃ hooks, emitter.hooks = .ok hooks) ↔ names.Nodup) ∧
      ((∃ module, emitter.emit = .ok module) ↔ names.Nodup) ∧
      (∀ hooks, emitter.hooks = .ok hooks → hooks = owned.map Prod.fst) ∧
      (∀ module, emitter.emit = .ok module → module.hookNames = names) ∧
      (∀ error, emitter.hooks = .error error → IsFirstCollision owned error) ∧
      (∀ error, emitter.emit = .error error → IsFirstCollision owned error) := by
  intro owned names
  have hnames : names = emitter.recordedHooks.map Hook.name :=
    emitter.names_recordedHooks.symm
  have hooks_iff : (∃ hooks, emitter.hooks = .ok hooks) ↔ names.Nodup := by
    rw [hnames]
    constructor
    · rintro ⟨hooks, h⟩
      exact (hooks_eq_ok_iff.1 h).2
    · intro hnodup
      exact ⟨_, hooks_eq_ok hnodup⟩
  refine ⟨hooks_iff, ?_, ?_, ?_, fun error => isFirstCollision_of_hooks, ?_⟩
  · rw [← hooks_iff]
    constructor
    · rintro ⟨module, h⟩
      obtain ⟨hooks, hhooks, _⟩ := exists_hooks_of_emit h
      exact ⟨hooks, hhooks⟩
    · rintro ⟨hooks, h⟩
      exact exists_emit_of_hooks h
  · intro hooks h
    rw [(hooks_eq_ok_iff.1 h).1]
    exact emitter.recordedHooks_eq
  · intro module h
    obtain ⟨hooks, hhooks, hlisted⟩ := exists_hooks_of_emit h
    rw [hlisted, (hooks_eq_ok_iff.1 hhooks).1, hnames]
  · intro error h
    exact isFirstCollision_of_hooks (emit_eq_error_iff.1 h)

end QueryHooks
