import QueryHooks.CommandLine.Run

/-!
# What runs lead to

A part of a command is begun with some files and leaves some files behind.  What becomes of it
depends on the files only, and apart from its result and the files it changes nothing but the log:
what is printed and reported is not touched before the command is concluded.

Main results:

- Definition `Run.Leads`: the result of a part of the command, and the files in front of it and
  behind it.
- Theorem `Run.leads_bind` and theorem `Run.leads_bind_error`: a chain goes on from the files that
  its first part leaves behind, or ends with a part that fails.
- Theorem `Run.leads_bind_outcome`: a chain of parts that leave the files alone.
- Theorem `Run.leads_mapM`: a loop over parts that leave the files alone ends at the first one that
  fails.
- Theorem `Run.leads_writeFile` and theorem `Run.leads_writeFile_of_fault`: a file is written or
  nothing is.
- Theorem `Run.Leads.unique`: a part of the command leads to one result.
-/

namespace QueryHooks

/-- A record changes nothing but the log, whether it is kept or not. -/
theorem World.exists_record_eq (world : World) (record : LogRecord) :
    ∃ log, world.record record = { world with log } := by
  rw [World.record]
  split
  · exact ⟨_, rfl⟩
  · exact ⟨world.log, rfl⟩

namespace Run

variable {α β : Type} {tree before between after : FileTree}

/--
A part of the command, begun with some files, has a result and leaves some files behind.  Apart from
these it changes nothing but the log.
-/
def Leads (part : Run α) (before : FileTree) (result : Except Failure α) (after : FileTree) :
    Prop :=
  ∀ world : World, world.tree = before →
    ∃ log, part.run.run world = (result, { world with tree := after, log })

/-! ## Parts by themselves -/

theorem leads_pure (value : α) : Leads (pure value) tree (.ok value) tree := by
  rintro world rfl
  exact ⟨world.log, rfl⟩

/-- A failure leaves the files as they are at that time. -/
theorem leads_throw (failure : Failure) :
    Leads (throw failure : Run α) tree (.error failure) tree := by
  rintro world rfl
  exact ⟨world.log, rfl⟩

/-- Looking at the files changes none of them. -/
theorem leads_files : Leads files tree (.ok tree) tree := by
  rintro world rfl
  exact ⟨world.log, rfl⟩

/-- A result that is an error becomes a failure, and any other one is given. -/
theorem leads_orFail {ε : Type} {failure : ε → Failure} {result : Except ε α}
    {outcome : Except Failure α} (h : result.mapError failure = outcome) :
    Leads (orFail failure result) tree outcome tree := by
  subst h
  cases result with
  | error error => exact leads_throw _
  | ok value => exact leads_pure value

/-- A message for the log changes no file. -/
theorem leads_note (level : LogLevel) (message : String) :
    Leads (note level message) tree (.ok ()) tree := by
  rintro world rfl
  obtain ⟨log, hrecord⟩ := world.exists_record_eq ⟨level, message⟩
  exact ⟨log, congrArg (Prod.mk (Except.ok ())) hrecord⟩

/-! ## Chains -/

section Chains

variable {part : Run α} {next : α → Run β}

/-- A chain goes on behind a part that does not fail, from the files that this has left. -/
theorem leads_bind {value : α} {result : Except Failure β}
    (h : Leads part before (.ok value) between)
    (hnext : Leads (next value) between result after) :
    Leads (part >>= next) before result after := by
  intro world hworld
  obtain ⟨written, hpart⟩ := h world hworld
  obtain ⟨log, hrest⟩ := hnext { world with tree := between, log := written } rfl
  refine ⟨log, ?_⟩
  rw [ExceptT.run_bind, StateT.run_bind, hpart]
  exact hrest

/-- A chain ends with a part that fails, and the files are what this has left. -/
theorem leads_bind_error {failure : Failure} (h : Leads part before (.error failure) after) :
    Leads (part >>= next) before (.error failure) after := by
  intro world hworld
  obtain ⟨log, hpart⟩ := h world hworld
  refine ⟨log, ?_⟩
  rw [ExceptT.run_bind, StateT.run_bind, hpart]
  rfl

/-- A chain of parts that leave the files alone has the result of the chain of their results. -/
theorem leads_bind_outcome {outcome : Except Failure α} {nextOutcome : α → Except Failure β}
    (h : Leads part tree outcome tree)
    (hnext : ∀ value, Leads (next value) tree (nextOutcome value) tree) :
    Leads (part >>= next) tree (outcome >>= nextOutcome) tree := by
  cases outcome with
  | error failure => exact leads_bind_error h
  | ok value => exact leads_bind h (hnext value)

/-- A chain leads somewhere if each of its parts does, from whatever files it is begun with. -/
theorem exists_leads_bind (h : ∃ outcome between, Leads part before outcome between)
    (hnext : ∀ value between, ∃ result after, Leads (next value) between result after) :
    ∃ result after, Leads (part >>= next) before result after := by
  obtain ⟨outcome, between, h⟩ := h
  cases outcome with
  | error failure => exact ⟨_, _, leads_bind_error h⟩
  | ok value =>
    obtain ⟨result, after, hresult⟩ := hnext value between
    exact ⟨result, after, leads_bind h hresult⟩

end Chains

/-! ## Loops -/

/-- Parts that leave the files alone give their results in turn, up to the first one that fails. -/
theorem leads_mapM {part : α → Run β} {outcome : α → Except Failure β}
    (h : ∀ element, Leads (part element) tree (outcome element) tree) (elements : List α) :
    Leads (elements.mapM part) tree (elements.mapM outcome) tree := by
  induction elements with
  | nil => exact leads_pure []
  | cons element elements ih =>
    rw [List.mapM_cons, List.mapM_cons]
    refine leads_bind_outcome (h element) fun value => ?_
    exact leads_bind_outcome ih fun values => leads_pure _

/-- Several messages do not change any either. -/
theorem leads_noteAll (level : LogLevel) (messages : List String) :
    Leads (noteAll level messages) tree (.ok ()) tree := by
  refine leads_bind (?_ : Leads _ tree (.ok PUnit.unit) tree) (leads_pure ())
  induction messages with
  | nil => exact leads_pure _
  | cons message messages ih =>
    rw [List.forIn_cons]
    exact leads_bind (leads_bind (leads_note level message) (leads_pure _)) ih

/-! ## Files -/

/-- A text that can be written is, and nothing is said. -/
theorem leads_writeFile {path : Path} {text : String} (h : before.write path text = .ok after) :
    Leads (writeFile path text) before (.ok ()) after := by
  refine leads_bind leads_files (leads_bind (leads_orFail (by rw [h]; rfl)) ?_)
  rintro world rfl
  exact ⟨world.log, rfl⟩

/-- Where a text cannot be written, no file changes. -/
theorem leads_writeFile_of_fault {path : Path} {text : String} {fault : FileTree.Fault}
    (h : tree.write path text = .error fault) :
    Leads (writeFile path text) tree (.error (.writing path fault)) tree :=
  leads_bind leads_files (leads_bind_error (leads_orFail (by rw [h]; rfl)))

/-! ## One result -/

/-- From the same files a part of the command leads to the same. -/
theorem Leads.unique {part : Run α} {result other : Except Failure α} {afterOther : FileTree}
    (h : Leads part before result after) (hother : Leads part before other afterOther) :
    result = other ∧ after = afterOther := by
  obtain ⟨log, hrun⟩ := h { tree := before } rfl
  obtain ⟨logOther, hrunOther⟩ := hother { tree := before } rfl
  rw [hrun] at hrunOther
  obtain ⟨hresult, hworld⟩ := Prod.mk.inj hrunOther
  exact ⟨hresult, congrArg World.tree hworld⟩

end Run

end QueryHooks
