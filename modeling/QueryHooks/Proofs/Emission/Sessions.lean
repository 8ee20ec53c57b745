import QueryHooks.Emission.Emitter

/-!
# Sessions with an emitter

An emitter is asked to record operations, to load documents and to generate hooks and modules, in
any order and as often as one likes.  What it has recorded only grows, and only by what it was
given: a document that is refused adds nothing, and neither does a generation, whether it succeeds
or not.  Nothing else is kept from one step to the next, so each answer is that of a fresh emitter
with the same operations.

A document that crashes the program adds nothing either.  The steps behind it are those of a caller
that goes on in spite of the crash; without one, the session is over.

Main results:

- Definition `Emitter.step` and definition `Emitter.session`: what an emitter does in a step, and in
  the steps of a session.
- Definition `Emitter.Step.recorded`: the operations that a step adds.
- Definition `Emitter.Step.Answers`: what an emitter answers to a step.
- Theorem `Emitter.run_eq`: what an emitter has recorded behind some steps.
- Theorem `Emitter.sessions_only_accumulate`: the emitters and the answers of a whole session.
-/

namespace QueryHooks.Emitter

/-! ## Steps -/

/-- Something that an emitter can be asked for. -/
inductive Step where
  | record (operation : Operation)
  /-- Load a document and record all its operations. -/
  | load (path? : Option Path) (text : String)
  | generate
  | emit
  /-- Emit a module and write it out. -/
  | render

/-- What an emitter answers. -/
inductive Answer where
  /-- The number of operations that are recorded by now. -/
  | recorded (size : Nat)
  /-- Why a document is not loaded. -/
  | refused (failure : LoadFailure)
  | generated (outcome : Except HookCollision (List Hook))
  | emitted (outcome : Except HookCollision Module)
  | rendered (outcome : Except HookCollision String)

/-- An emitter behind a step, and what it answers. -/
def step (emitter : Emitter) : Step → Emitter × Answer
  | .record operation =>
    let later := emitter.record operation
    (later, .recorded later.collector.size)
  | .load path? text =>
    match emitter.load path? text with
    | .ok later => (later, .recorded later.collector.size)
    | .error failure => (emitter, .refused failure)
  | .generate => (emitter, .generated emitter.hooks)
  | .emit => (emitter, .emitted emitter.emit)
  | .render => (emitter, .rendered (emitter.emit.map Module.render))

/-- An emitter behind some steps. -/
def run (emitter : Emitter) (steps : List Step) : Emitter :=
  steps.foldl (fun emitter step => (emitter.step step).1) emitter

/-- An emitter behind each of some steps, beside its answer to that step. -/
def session (emitter : Emitter) : List Step → List (Emitter × Answer)
  | [] => []
  | step :: steps => emitter.step step :: (emitter.step step).1.session steps

/-! ## What steps add and what is answered to them -/

/-- The operations that a step adds: those of a document all at once, or none of them. -/
def Step.recorded (affixes : Affixes) : Step → List Operation
  | .record operation => [operation]
  | .load path? text =>
    match loadText affixes path? text with
    | .ok operations => operations
    | .error _ => []
  | .generate | .emit | .render => []

/-- What an emitter answers to a step. -/
inductive Step.Answers (emitter : Emitter) : Step → Answer → Prop where
  | record (operation : Operation) :
      Answers emitter (.record operation) (.recorded (emitter.collector.size + 1))
  | load {path? : Option Path} {text : String} {operations : List Operation}
      (h : loadText emitter.config.affixes path? text = .ok operations) :
      Answers emitter (.load path? text) (.recorded (emitter.collector.size + operations.length))
  | refuse {path? : Option Path} {text : String} {failure : LoadFailure}
      (h : loadText emitter.config.affixes path? text = .error failure) :
      Answers emitter (.load path? text) (.refused failure)
  | generate : Answers emitter .generate (.generated emitter.hooks)
  | emit : Answers emitter .emit (.emitted emitter.emit)
  | render : Answers emitter .render (.rendered (emitter.emit.map Module.render))

/-- Operations that were loaded are recorded all at once. -/
theorem load_of_ok {emitter : Emitter} {path? : Option Path} {text : String}
    {operations : List Operation}
    (h : loadText emitter.config.affixes path? text = .ok operations) :
    emitter.load path? text = .ok (emitter.recordAll operations) := by
  rw [load, h]
  rfl

/-- A document that fails to load is not recorded at all. -/
theorem load_of_error {emitter : Emitter} {path? : Option Path} {text : String}
    {failure : LoadFailure} (h : loadText emitter.config.affixes path? text = .error failure) :
    emitter.load path? text = .error failure := by
  rw [load, h]
  rfl

/-- An emitter with the operations of another one and some more. -/
theorem eq_mk_of_operations {emitter later : Emitter} {added : List Operation}
    (hconfig : later.config = emitter.config)
    (h : later.collector.operations = emitter.collector.operations ++ added) :
    later = ⟨emitter.config, ⟨emitter.collector.operations ++ added⟩⟩ := by
  obtain ⟨config, operations⟩ := later
  obtain rfl := hconfig
  rw [← h]

/-- A step adds its operations to an emitter and changes nothing else. -/
theorem step_fst (emitter : Emitter) (step : Step) :
    (emitter.step step).1 =
      ⟨emitter.config,
        ⟨emitter.collector.operations ++ step.recorded emitter.config.affixes⟩⟩ := by
  cases step with
  | record operation => rfl
  | load path? text =>
    cases hload : loadText emitter.config.affixes path? text with
    | ok operations =>
      rw [Emitter.step, load_of_ok hload, Step.recorded, hload]
      exact eq_mk_of_operations rfl (operations_recordAll emitter operations)
    | error failure =>
      -- A refused document leaves not even its operations without errors behind.
      rw [Emitter.step, load_of_error hload, Step.recorded, hload]
      exact eq_mk_of_operations rfl (List.append_nil _).symm
  | generate | emit | render => exact eq_mk_of_operations rfl (List.append_nil _).symm

/-- A step is answered. -/
theorem answers_step (emitter : Emitter) (step : Step) :
    step.Answers emitter (emitter.step step).2 := by
  cases step with
  | record operation =>
    have hsize : (emitter.record operation).collector.size = emitter.collector.size + 1 := by
      simp [Collector.size]
    rw [Emitter.step, hsize]
    exact .record operation
  | load path? text =>
    cases hload : loadText emitter.config.affixes path? text with
    | ok operations =>
      have hsize : (emitter.recordAll operations).collector.size =
          emitter.collector.size + operations.length := by
        simp [Collector.size]
      rw [Emitter.step, load_of_ok hload]
      simp only [hsize]
      exact .load hload
    | error failure =>
      rw [Emitter.step, load_of_error hload]
      exact .refuse hload
  | generate => exact .generate
  | emit => exact .emit
  | render => exact .render

/-! ## Runs -/

/-- Behind some steps an emitter has recorded all that these add, in their order. -/
theorem run_eq (emitter : Emitter) (steps : List Step) :
    emitter.run steps =
      ⟨emitter.config,
        ⟨emitter.collector.operations ++
          steps.flatMap (Step.recorded emitter.config.affixes)⟩⟩ := by
  induction steps generalizing emitter with
  | nil => exact eq_mk_of_operations rfl (List.append_nil _).symm
  | cons step steps ih =>
    change (emitter.step step).1.run steps = _
    rw [ih, step_fst, List.flatMap_cons, List.append_assoc]

/-- Each step of a session has one answer. -/
theorem length_session (emitter : Emitter) (steps : List Step) :
    (emitter.session steps).length = steps.length := by
  induction steps generalizing emitter with
  | nil => rfl
  | cons step steps ih => rw [session, List.length_cons, List.length_cons, ih]

/-- In a session, each step is taken by the emitter that the steps in front of it lead to. -/
theorem getElem?_session (emitter : Emitter) {steps : List Step} {i : Nat} {step : Step}
    (h : steps[i]? = some step) :
    (emitter.session steps)[i]? = some ((emitter.run (steps.take i)).step step) := by
  induction steps generalizing emitter i with
  | nil => simp at h
  | cons first steps ih =>
    cases i with
    | zero =>
      obtain rfl : first = step := by simpa using h
      rfl
    | succ i =>
      rw [session, List.getElem?_cons_succ, ih (emitter.step first).1 (by simpa using h)]
      rfl

/--
In a session, each step finds the operations of the initial collector and behind them, in order, all
that the steps in front of it have recorded: single operations and those of the documents that were
not refused.  It adds what it records itself, and its answer is that of an emitter made with just
these operations.
-/
theorem sessions_only_accumulate (config : Config) (collector : Collector) (steps : List Step) :
    let outcomes := (Emitter.mk config collector).session steps
    outcomes.length = steps.length ∧
      ∀ (i : Nat) (step : Step), steps[i]? = some step →
        let found := collector.operations ++ (steps.take i).flatMap (Step.recorded config.affixes)
        ∃ answer, step.Answers ⟨config, ⟨found⟩⟩ answer ∧
          outcomes[i]? = some (⟨config, ⟨found ++ step.recorded config.affixes⟩⟩, answer) := by
  intro outcomes
  refine ⟨length_session _ steps, ?_⟩
  intro i step h found
  have hfound : (Emitter.mk config collector).run (steps.take i) = ⟨config, ⟨found⟩⟩ := run_eq ..
  have houtcome := getElem?_session (Emitter.mk config collector) h
  rw [hfound] at houtcome
  refine ⟨_, answers_step ⟨config, ⟨found⟩⟩ step, houtcome.trans ?_⟩
  rw [← step_fst ⟨config, ⟨found⟩⟩ step]

end QueryHooks.Emitter
