import QueryHooks.CommandLine.Generate
import QueryHooks.Proofs.CommandLine.Discovery
import QueryHooks.Proofs.CommandLine.Runs
import QueryHooks.Proofs.Operation.Loading

/-!
# What the stages of a command lead to

Each stage of a command leads to what its own part of the program gives for the files that it finds.
No stage changes these but the last one, and that only where it succeeds.

Main results:

- Theorems `leads_readConfig`, `leads_findDocuments`, `leads_loadDocuments`, `leads_makeModule`,
  `leads_deliver_print`, `leads_deliver_write` and `leads_deliver_fault`: what the stages lead to.
- Theorem `gathered_eq_ok`, theorem `gathered_eq_error` and theorem `gathered_eq_crashed`: what
  comes of documents that all load, of documents of which one does not, and of documents at which
  the program crashes.
- Theorem `loadAt_eq_crashed_iff`: the documents at which it crashes.
-/

namespace QueryHooks

open Run

/-! ## The configuration -/

/--
The configuration of a command; it has no options unless the path of a file with some is given.
-/
def GenerateArguments.configuration (arguments : GenerateArguments) (tree : FileTree) :
    Except Config.Error Config :=
  arguments.config?.elim (.ok {}) (Config.ofFile tree)

/-- Reading the configuration gives it, or fails as it does. -/
theorem leads_readConfig (tree : FileTree) (arguments : GenerateArguments) :
    Leads (readConfig arguments.config?) tree ((arguments.configuration tree).mapError .config)
      tree := by
  unfold readConfig GenerateArguments.configuration
  cases arguments.config? with
  | none => exact leads_pure _
  | some path => exact leads_bind (leads_note _ _) (leads_bind leads_files (leads_orFail rfl))

/-! ## The documents -/

/-- A discovery gives its documents unless it has errors, whatever is noted of it. -/
theorem leads_reportDiscovery (tree : FileTree) (arguments : GenerateArguments)
    (notes : List String) (discovery : Discovery) :
    Leads (reportDiscovery arguments notes discovery) tree
      (if discovery.errors.isEmpty then .ok discovery.files
        else .error (.discovery discovery.errors)) tree := by
  unfold reportDiscovery
  refine leads_bind (leads_note _ _) (leads_bind (leads_noteAll _ _) ?_)
  obtain ⟨files, errors, exception?⟩ := discovery
  cases errors with
  | nil =>
    cases exception? with
    | none => exact leads_bind (leads_note _ _) (leads_pure _)
    | some place => exact leads_bind (leads_note _ _) (leads_bind (leads_note _ _) (leads_pure _))
  | cons error errors =>
    cases exception? with
    | none => exact leads_bind_error (leads_throw _)
    | some place => exact leads_bind (leads_note _ _) (leads_bind_error (leads_throw _))

/-- The search for documents gives the files of the discovery, unless a walk has an error. -/
theorem leads_findDocuments (tree : FileTree) (arguments : GenerateArguments) :
    Leads (findDocuments arguments) tree
      (if (tree.scanErrors arguments).isEmpty then
        .ok (tree.discover arguments.extensions arguments.paths).files
      else .error (.discovery (tree.scanErrors arguments))) tree := by
  rw [← FileTree.errors_discover]
  exact leads_bind leads_files (leads_reportDiscovery _ _ _ _)

/-! ## The operations of the documents -/

/-- What a document at a place gives under a configuration. -/
def loadAt (tree : FileTree) (config : Config) (place : Place) :
    Except LoadFailure (List Operation) :=
  loadFile tree config.affixes place.path

/-- The operations of a document, if it loads. -/
def operationsIn : Except LoadFailure (List Operation) → List Operation
  | .ok operations => operations
  | .error _ => []

/--
The errors of a document; one that loads has none, and neither has one at which the program crashes.
-/
def loadErrorsIn : Except LoadFailure (List Operation) → List LoadError
  | .error (.errors errors) => errors
  | .ok _ | .error .crashed => []

/-- The errors of a document are kept for later, but a crash comes at once. -/
def settled : Except LoadFailure (List Operation) →
    Except Failure (Except (List LoadError) (List Operation))
  | .ok operations => .ok (.ok operations)
  | .error (.errors errors) => .ok (.error errors)
  | .error .crashed => .error .crashed

/-- What comes of some documents. -/
def gathered (results : List (Except LoadFailure (List Operation))) :
    Except Failure (List Operation) := do
  (joinLoaded (← results.mapM settled)).mapError .loading

/-- Loading a document gives its operations or its errors, unless the program crashes at it. -/
theorem leads_loadDocument (tree : FileTree) (config : Config) (place : Place) :
    Leads (loadDocument config.affixes place) tree (settled (loadAt tree config place)) tree := by
  unfold loadDocument loadAt
  refine leads_bind leads_files (leads_bind (leads_noteAll _ _) ?_)
  rcases loadFile tree config.affixes place.path with (errors | _) | operations
  · exact leads_pure _
  · exact leads_throw _
  · exact leads_bind (leads_note _ _) (leads_bind (leads_noteAll _ _) (leads_pure _))

/-- Loading documents leads to what comes of all of them. -/
theorem leads_loadDocuments (tree : FileTree) (config : Config) (places : List Place) :
    Leads (loadDocuments config.affixes places) tree
      (gathered (places.map (loadAt tree config))) tree := by
  have hload : Leads (places.mapM (loadDocument config.affixes)) tree
      (places.mapM (settled ∘ loadAt tree config)) tree :=
    leads_mapM (leads_loadDocument tree config) places
  rw [gathered, List.mapM_map]
  exact leads_bind_outcome hload fun results => leads_orFail rfl

section Gathering

variable {results : List (Except LoadFailure (List Operation))}

/-- Results of which none is a crash are kept, each with its operations or its errors. -/
theorem mapM_settled (h : .error .crashed ∉ results) :
    ∃ kept, results.mapM settled = .ok kept ∧
      (valuesOf kept).flatten = results.flatMap operationsIn ∧
      (errorsOf kept).flatten = results.flatMap loadErrorsIn ∧
      ∀ errors, errors ∈ errorsOf kept ↔ .error (.errors errors) ∈ results := by
  induction results with
  | nil => exact ⟨[], rfl, rfl, rfl, by simp [errorsOf]⟩
  | cons result results ih =>
    obtain ⟨hresult, hresults⟩ := List.ne_and_not_mem_of_not_mem_cons h
    obtain ⟨kept, hkept, hvalues, herrors, hmem⟩ := ih hresults
    rw [List.mapM_cons, hkept]
    rcases result with (errors | _) | operations
    · refine ⟨.error errors :: kept, rfl, ?_, ?_, ?_⟩
      · simpa [valuesOf, operationsIn] using hvalues
      · simpa [errorsOf, loadErrorsIn] using herrors
      · simpa [errorsOf] using fun other => or_congr_right (hmem other)
    · exact absurd rfl hresult
    · refine ⟨.ok operations :: kept, rfl, ?_, ?_, ?_⟩
      · simpa [valuesOf, operationsIn] using hvalues
      · simpa [errorsOf, loadErrorsIn] using herrors
      · simpa [errorsOf] using hmem

/-- Documents that all load give their operations one after the other. -/
theorem gathered_eq_ok (h : ∀ result ∈ results, ∃ operations, result = .ok operations) :
    gathered results = .ok (results.flatMap operationsIn) := by
  have hloads {failure : LoadFailure} : .error failure ∉ results := fun hmem => by
    obtain ⟨operations, hoperations⟩ := h _ hmem
    exact absurd hoperations (by simp)
  obtain ⟨kept, hkept, hvalues, _, hmem⟩ := mapM_settled hloads
  have hnone : errorsOf kept = [] :=
    List.eq_nil_iff_forall_not_mem.2 fun errors herrors => hloads ((hmem errors).1 herrors)
  rw [gathered, hkept, ← hvalues]
  simp [bind, Except.bind, joinLoaded, allOrErrors_eq, hnone, Except.mapError]

/-- Documents of which one does not load give the errors of all of them one after the other. -/
theorem gathered_eq_error (hsound : .error .crashed ∉ results) {errors : List LoadError}
    (h : .error (.errors errors) ∈ results) :
    gathered results = .error (.loading (results.flatMap loadErrorsIn)) := by
  obtain ⟨kept, hkept, _, herrors, hmem⟩ := mapM_settled hsound
  have hne : errorsOf kept ≠ [] := List.ne_nil_of_mem ((hmem errors).2 h)
  rw [gathered, hkept, ← herrors]
  simp [bind, Except.bind, joinLoaded, allOrErrors_eq, hne, Except.mapError]

/-- Documents at one of which the program crashes give nothing else, whatever else is wrong. -/
theorem gathered_eq_crashed (h : .error .crashed ∈ results) :
    gathered results = .error .crashed := by
  have hcrash : results.mapM settled = .error .crashed := by
    induction results with
    | nil => exact absurd h List.not_mem_nil
    | cons result results ih =>
      rw [List.mapM_cons]
      rcases List.mem_cons.1 h with rfl | hlater
      · rfl
      -- The errors that were kept in front of the crash are lost with it.
      · rw [ih hlater]
        rcases result with (errors | _) | operations <;> rfl
  rw [gathered, hcrash]
  rfl

end Gathering

/-- A document with mistakes has errors. -/
theorem ne_nil_of_loadFile {tree : FileTree} {affixes : Affixes} {path : Path}
    {errors : List LoadError} (h : loadFile tree affixes path = .error (.errors errors)) :
    errors ≠ [] := by
  rw [loadFile] at h
  split at h
  · obtain rfl := LoadFailure.errors.inj (Except.error.inj h)
    exact List.cons_ne_nil _ _
  · exact ne_nil_of_loadText h

/--
The program crashes at a document exactly if its text comes to a block string that cannot be cut.
-/
theorem loadAt_eq_crashed_iff {tree : FileTree} {config : Config} {place : Place} :
    loadAt tree config place = .error .crashed ↔
      ∃ text position chars, tree.readText place.path = .ok text ∧
        Document.CrashesAt text position chars := by
  rw [loadAt, loadFile]
  cases tree.readText place.path with
  | error error => simp
  | ok text => simp [loadText_eq_crashed_iff, Document.parse_eq_crashed_iff]

/-! ## The module -/

/-- Making the module gives what the emitter does. -/
theorem leads_makeModule (tree : FileTree) (emitter : Emitter) :
    Leads (makeModule emitter) tree (emitter.emit.mapError .emission) tree := by
  refine leads_bind (leads_noteAll _ _) (leads_bind (leads_note _ _) ?_)
  exact leads_bind (leads_noteAll _ _) (leads_orFail rfl)

/-- A module that is not to be written is printed, which cannot fail. -/
theorem leads_deliver_print (tree : FileTree) (module : Module) (operations documents : Nat) :
    Leads (deliver none module operations documents) tree (.ok (trimmed module.render)) tree :=
  leads_pure _

/-- A module that can be written is there afterwards. -/
theorem leads_deliver_write {tree after : FileTree} {path : Path} {module : Module}
    (h : tree.write path module.render = .ok after) (operations documents : Nat) :
    ∃ message, Leads (deliver (some path) module operations documents) tree (.ok message) after :=
  ⟨_, leads_bind (leads_writeFile h) (leads_pure _)⟩

/-- A module that cannot be written leaves the files as they are. -/
theorem leads_deliver_fault {tree : FileTree} {path : Path} {module : Module}
    {fault : FileTree.Fault} (h : tree.write path module.render = .error fault)
    (operations documents : Nat) :
    Leads (deliver (some path) module operations documents) tree
      (.error (.writing path fault)) tree :=
  leads_bind_error (leads_writeFile_of_fault h)

/-- Delivering a module leads somewhere in each case. -/
theorem exists_leads_deliver (tree : FileTree) (output? : Option Path) (module : Module)
    (operations documents : Nat) :
    ∃ result after, Leads (deliver output? module operations documents) tree result after := by
  cases output? with
  | none => exact ⟨_, _, leads_deliver_print tree module operations documents⟩
  | some path =>
    cases hwrite : tree.write path module.render with
    | error fault => exact ⟨_, _, leads_deliver_fault hwrite operations documents⟩
    | ok after =>
      obtain ⟨message, hmessage⟩ := leads_deliver_write hwrite operations documents
      exact ⟨_, _, hmessage⟩

end QueryHooks
