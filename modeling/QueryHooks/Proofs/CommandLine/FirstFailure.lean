import Mathlib
import QueryHooks.CommandLine.Command
import QueryHooks.Proofs.CommandLine.Stages

/-!
# The first failure of a command

A command fails as its first stage that does.  It has then printed nothing and changed no file, and
all errors of that stage are reported, unless the program crashes while it reads a document: then
nothing is said of the errors of the other documents.

Main results:

- Definition `Completes`: every stage of a command succeeds.
- Definition `FirstFailure`: some stage fails, and those in front of it succeed.
- Definition `Crashes`: the stages up to the documents succeed, and the program crashes at one of
  these.
- Theorem `completes_or_firstFailure`: a command completes or has a first failure.
- Theorem `FirstFailure.eq`: it has no other one.
- Theorem `FirstFailure.message_eq`: the errors of a failure are reported line by line.
- Theorem `command_reports_first_failure`: the status of a command, what it prints and reports, and
  the files that it leaves.
- Theorem `run_crashingTree`: a command that does not report the mistake in one of its documents.
-/

namespace QueryHooks

open Run

/-! ## How far a command goes -/

/-- The configuration is there, and the documents are found without an error. -/
structure Prepared (tree : FileTree) (arguments : GenerateArguments) (config : Config)
    (places : List Place) : Prop where
  configuration : arguments.configuration tree = .ok config
  scanErrors : tree.scanErrors arguments = []
  finds : tree.Finds arguments places

/-- All documents load too. -/
structure Loaded (tree : FileTree) (arguments : GenerateArguments) (config : Config)
    (places : List Place) : Prop extends Prepared tree arguments config places where
  loads : ∀ place ∈ places, ∃ operations, loadAt tree config place = .ok operations

/-- The operations of some documents, one document after the other. -/
def operationsAt (tree : FileTree) (config : Config) (places : List Place) : List Operation :=
  places.flatMap fun place => operationsIn (loadAt tree config place)

/-- The emitter that has recorded the operations of some documents in order. -/
def recordedAt (tree : FileTree) (config : Config) (places : List Place) : Emitter :=
  (Emitter.mk config {}).recordAll (operationsAt tree config places)

/-- Every stage of a command succeeds. -/
def Completes (tree : FileTree) (arguments : GenerateArguments) : Prop :=
  ∃ config places module, Loaded tree arguments config places ∧
    (recordedAt tree config places).emit = .ok module ∧
    ∀ path ∈ arguments.output?, ∃ after, tree.write path module.render = .ok after

/--
A stage of a command fails, and the stages in front of it succeed.  Documents that do not load fail
with the errors of all of them, one document after the other.
-/
inductive FirstFailure (tree : FileTree) (arguments : GenerateArguments) : Failure → Prop
  | config {error : Config.Error} (h : arguments.configuration tree = .error error) :
    FirstFailure tree arguments (.config error)
  | discovery {config : Config} (hconfig : arguments.configuration tree = .ok config)
    (h : tree.scanErrors arguments ≠ []) :
    FirstFailure tree arguments (.discovery (tree.scanErrors arguments))
  | loading {config : Config} {places : List Place}
    (hprepared : Prepared tree arguments config places)
    {place : Place} (hplace : place ∈ places) {failure : LoadFailure}
    (h : loadAt tree config place = .error failure) :
    FirstFailure tree arguments
      (.loading (places.flatMap fun place => loadErrorsIn (loadAt tree config place)))
  | emission {config : Config} {places : List Place} (hloaded : Loaded tree arguments config places)
    {error : HookCollision} (h : (recordedAt tree config places).emit = .error error) :
    FirstFailure tree arguments (.emission error)
  | writing {config : Config} {places : List Place} (hloaded : Loaded tree arguments config places)
    {module : Module} (hemit : (recordedAt tree config places).emit = .ok module) {path : Path}
    (hpath : arguments.output? = some path) {fault : FileTree.Fault}
    (h : tree.write path module.render = .error fault) :
    FirstFailure tree arguments (.writing path fault)

/--
The documents are found, and the text of one of them comes to a block string that cannot be cut.
-/
def Crashes (tree : FileTree) (arguments : GenerateArguments) : Prop :=
  ∃ config places, Prepared tree arguments config places ∧
    ∃ place ∈ places, ∃ text position chars,
      tree.readText place.path = .ok text ∧ Document.CrashesAt text position chars

section Running

variable {tree : FileTree} {arguments : GenerateArguments} {config : Config} {places : List Place}

/-- A command completes or has a first failure. -/
theorem completes_or_firstFailure (tree : FileTree) (arguments : GenerateArguments) :
    Completes tree arguments ∨ ∃ failure, FirstFailure tree arguments failure := by
  -- Stage by stage: a failure is the first one, since all stages in front of it were passed.
  cases hconfig : arguments.configuration tree with
  | error error => exact .inr ⟨_, .config hconfig⟩
  | ok config =>
    by_cases hscan : tree.scanErrors arguments = []
    case neg => exact .inr ⟨_, .discovery hconfig hscan⟩
    have hprepared : Prepared tree arguments config _ :=
      ⟨hconfig, hscan, tree.finds_discover arguments⟩
    generalize (tree.discover arguments.extensions arguments.paths).files = places at hprepared
    by_cases hloads : ∀ place ∈ places, ∃ operations, loadAt tree config place = .ok operations
    case neg =>
      push Not at hloads
      obtain ⟨place, hplace, hnone⟩ := hloads
      cases hfailure : loadAt tree config place with
      | error failure => exact .inr ⟨_, .loading hprepared hplace hfailure⟩
      | ok operations => exact absurd hfailure (hnone operations)
    have hloaded : Loaded tree arguments config places := ⟨hprepared, hloads⟩
    cases hemit : (recordedAt tree config places).emit with
    | error error => exact .inr ⟨_, .emission hloaded hemit⟩
    | ok module =>
      cases houtput : arguments.output? with
      | none => exact .inl ⟨config, places, module, hloaded, hemit, by simp [houtput]⟩
      | some path =>
        cases hwrite : tree.write path module.render with
        | error fault => exact .inr ⟨_, .writing hloaded hemit houtput hwrite⟩
        | ok after => exact .inl ⟨config, places, module, hloaded, hemit, by simp [houtput, hwrite]⟩

/-- The documents of a command are the files of its discovery. -/
theorem Prepared.places_eq (h : Prepared tree arguments config places) :
    places = (tree.discover arguments.extensions arguments.paths).files :=
  h.finds.eq (tree.finds_discover arguments)

/-- A command comes to one configuration and to one list of documents. -/
theorem Prepared.unique (h : Prepared tree arguments config places) {config' : Config}
    {places' : List Place} (h' : Prepared tree arguments config' places') :
    config' = config ∧ places' = places :=
  ⟨Except.ok.inj (h'.configuration.symm.trans h.configuration), h'.places_eq.trans h.places_eq.symm⟩

/-- At one of the documents of a command that crashes there is the crash. -/
theorem Prepared.crashes_iff (h : Prepared tree arguments config places) :
    Crashes tree arguments ↔ .error .crashed ∈ places.map (loadAt tree config) := by
  simp only [List.mem_map, loadAt_eq_crashed_iff]
  constructor
  · rintro ⟨config', places', hprepared, hcrash⟩
    obtain ⟨rfl, rfl⟩ := h.unique hprepared
    exact hcrash
  · exact fun hcrash => ⟨config, places, h, hcrash⟩

/-- Where all documents load, the program does not crash. -/
theorem Loaded.not_crashes (h : Loaded tree arguments config places) : ¬Crashes tree arguments := by
  rw [h.crashes_iff, List.mem_map]
  rintro ⟨place, hplace, hcrash⟩
  obtain ⟨operations, hoperations⟩ := h.loads place hplace
  rw [hoperations] at hcrash
  exact absurd hcrash (by simp)

/-! ## What the command leads to -/

/-- A configuration that is there is read. -/
theorem leads_readConfig_ok (h : arguments.configuration tree = .ok config) :
    Leads (readConfig arguments.config?) tree (.ok config) tree := by
  have hread := leads_readConfig tree arguments
  rw [h] at hread
  exact hread

/-- Documents that are found without an error are given. -/
theorem Prepared.leads_places (h : Prepared tree arguments config places) :
    Leads (findDocuments arguments) tree (.ok places) tree := by
  have hfind := leads_findDocuments tree arguments
  rw [h.scanErrors, ← h.places_eq] at hfind
  exact hfind

/-- Documents that all load give their operations. -/
theorem Loaded.leads_operations (h : Loaded tree arguments config places) :
    Leads (loadDocuments config.affixes places) tree (.ok (operationsAt tree config places))
      tree := by
  have hload := leads_loadDocuments tree config places
  rw [gathered_eq_ok (List.forall_mem_map.2 h.loads), List.flatMap_map] at hload
  exact hload

variable {result : Except Failure String} {after : FileTree}

/-- Where the documents are found, a command leads where loading them and all that follows does. -/
theorem Prepared.leads_generate (h : Prepared tree arguments config places)
    (hrest : Leads (do
      let operations ← loadDocuments config.affixes places
      let module ← makeModule ((Emitter.mk config {}).recordAll operations)
      deliver arguments.output? module operations.length places.length) tree result after) :
    Leads (generate arguments) tree result after := by
  refine leads_bind (leads_note _ _) ?_
  refine leads_bind (leads_readConfig_ok h.configuration) ?_
  exact leads_bind h.leads_places hrest

/-- Where the documents load too, a command leads where making the module and delivering it does. -/
theorem Loaded.leads_generate (h : Loaded tree arguments config places)
    (hrest : Leads (do
      let module ← makeModule (recordedAt tree config places)
      deliver arguments.output? module (operationsAt tree config places).length
        places.length) tree result after) :
    Leads (generate arguments) tree result after :=
  h.toPrepared.leads_generate (leads_bind h.leads_operations hrest)

/-- Where a module is made, a command leads where delivering it does. -/
theorem Loaded.leads_delivery (h : Loaded tree arguments config places) {module : Module}
    (hemit : (recordedAt tree config places).emit = .ok module)
    (hdeliver : Leads (deliver arguments.output? module (operationsAt tree config places).length
      places.length) tree result after) :
    Leads (generate arguments) tree result after := by
  have hmake := leads_makeModule tree (recordedAt tree config places)
  rw [hemit] at hmake
  exact h.leads_generate (leads_bind hmake hdeliver)

/-- A command of which every stage succeeds does so. -/
theorem Completes.leads_generate (h : Completes tree arguments) :
    ∃ message after, Leads (generate arguments) tree (.ok message) after := by
  obtain ⟨config, places, module, hloaded, hemit, hwrite⟩ := h
  have hdeliver (operations documents : Nat) :
      ∃ message after,
        Leads (deliver arguments.output? module operations documents) tree (.ok message) after := by
    cases houtput : arguments.output? with
    | none => exact ⟨_, _, leads_deliver_print tree module operations documents⟩
    | some path =>
      obtain ⟨after, hafter⟩ := hwrite path houtput
      obtain ⟨message, hmessage⟩ := leads_deliver_write hafter operations documents
      exact ⟨_, _, hmessage⟩
  obtain ⟨message, after, hmessage⟩ :=
    hdeliver (operationsAt tree config places).length places.length
  exact ⟨message, after, hloaded.leads_delivery hemit hmessage⟩

/--
A command at one of whose documents the program crashes does so, and leaves all files as they are.
-/
theorem Crashes.leads_generate (h : Crashes tree arguments) :
    Leads (generate arguments) tree (.error .crashed) tree := by
  obtain ⟨config, places, hprepared, hcrash⟩ := id h
  have hload := leads_loadDocuments tree config places
  rw [gathered_eq_crashed (hprepared.crashes_iff.1 h)] at hload
  exact hprepared.leads_generate (leads_bind_error hload)

/-- A command with a first failure fails so without a crash, and leaves all files as they are. -/
theorem FirstFailure.leads_generate {failure : Failure} (h : FirstFailure tree arguments failure)
    (hsound : ¬Crashes tree arguments) : Leads (generate arguments) tree (.error failure) tree := by
  cases h with
  | config h =>
    have hread := leads_readConfig tree arguments
    rw [h] at hread
    exact leads_bind (leads_note _ _) (leads_bind_error hread)
  | discovery hconfig h =>
    have hfind := leads_findDocuments tree arguments
    rw [if_neg (by simpa using h)] at hfind
    refine leads_bind (leads_note _ _) ?_
    exact leads_bind (leads_readConfig_ok hconfig) (leads_bind_error hfind)
  | @loading config places hprepared place hplace failure h =>
    rw [hprepared.crashes_iff] at hsound
    have hmem := List.mem_map_of_mem (f := loadAt tree config) hplace
    rw [h] at hmem
    cases failure with
    | crashed => exact absurd hmem hsound
    | errors errors =>
      have hload := leads_loadDocuments tree config places
      rw [gathered_eq_error hsound hmem, List.flatMap_map] at hload
      exact hprepared.leads_generate (leads_bind_error hload)
  | @emission config places hloaded error h =>
    have hmake := leads_makeModule tree (recordedAt tree config places)
    rw [h] at hmake
    exact hloaded.leads_generate (leads_bind_error hmake)
  | @writing config places hloaded module hemit path hpath fault h =>
    have hdeliver := leads_deliver_fault h (operationsAt tree config places).length places.length
    rw [← hpath] at hdeliver
    exact hloaded.leads_delivery hemit hdeliver

end Running

section Unique

variable {tree : FileTree} {arguments : GenerateArguments}

/-- If the program crashes at a document, loading the documents is the stage that fails. -/
theorem FirstFailure.eq_loading {failure : Failure} (h : FirstFailure tree arguments failure)
    (hcrash : Crashes tree arguments) {config : Config} {places : List Place}
    (hprepared : Prepared tree arguments config places) :
    failure = .loading (places.flatMap fun place => loadErrorsIn (loadAt tree config place)) := by
  cases h with
  | config h => exact absurd (h.symm.trans hprepared.configuration) (by simp)
  | discovery _ h => exact absurd hprepared.scanErrors h
  | loading hprepared' _ _ =>
    obtain ⟨rfl, rfl⟩ := hprepared.unique hprepared'
    rfl
  | emission hloaded _ => exact absurd hcrash hloaded.not_crashes
  | writing hloaded _ _ _ => exact absurd hcrash hloaded.not_crashes

/-- A command has one first failure. -/
theorem FirstFailure.unique {failure other : Failure} (h : FirstFailure tree arguments failure)
    (hother : FirstFailure tree arguments other) : other = failure := by
  by_cases hcrash : Crashes tree arguments
  -- What a crash is led to says nothing of the first failure, so this case is taken by itself.
  · obtain ⟨config, places, hprepared, _⟩ := id hcrash
    exact (hother.eq_loading hcrash hprepared).trans (h.eq_loading hcrash hprepared).symm
  · have hsame := (hother.leads_generate hcrash).unique (h.leads_generate hcrash)
    exact Except.error.inj hsame.1

/-- A command that completes does not crash. -/
theorem Completes.not_crashes (h : Completes tree arguments) : ¬Crashes tree arguments := by
  obtain ⟨_, _, _, hloaded, _⟩ := h
  exact hloaded.not_crashes

/-- A command that completes has no first failure. -/
theorem Completes.not_firstFailure (h : Completes tree arguments) (failure : Failure) :
    ¬FirstFailure tree arguments failure := by
  intro hfailure
  obtain ⟨message, after, hcompletes⟩ := h.leads_generate
  have hsame := (hcompletes.unique (hfailure.leads_generate h.not_crashes)).1
  exact absurd hsame (by simp)

/-- A command with a first failure fails, so or with a crash, and leaves all files as they are. -/
theorem FirstFailure.exists_leads_generate {failure : Failure}
    (h : FirstFailure tree arguments failure) :
    ∃ other, Leads (generate arguments) tree (.error other) tree := by
  by_cases hcrash : Crashes tree arguments
  · exact ⟨_, hcrash.leads_generate⟩
  · exact ⟨_, h.leads_generate hcrash⟩

end Unique

/-! ## What is reported -/

/-- A line for one error of several. -/
def bullet (message : Message) : Message :=
  .ofText "  * " ++ message

theorem bullet_ofText (text : String) : bullet (.ofText text) = .ofText ("  * " ++ text) :=
  (Message.ofText_append "  * " text).symm

/-- The line above the errors. -/
def headline : Message :=
  .ofText "✘ Hook generation failed:"

/-- The lines in which a failure is reported. -/
def Failure.lines : Failure → List Message
  | config error => [.ofText "✘ Invalid configuration: " ++ error.message]
  | discovery errors => headline :: errors.map fun error => bullet (.ofText error.message)
  | loading errors => headline :: errors.map fun error => bullet error.message
  | emission error => [headline, bullet (.ofText error.message)]
  | writing path fault =>
    [.ofText ("✘ Failed to write " ++ path.quoted ++ ": " ++ fault.message)]
  | crashed => [.omitted .crash]

/-- Lines one below the other, each with a line feed behind it. -/
def terminated (lines : List Message) : Message :=
  lines.flatMap (· ++ Message.ofText "\n")

theorem terminated_singleton (line : Message) : terminated [line] = line ++ .ofText "\n" := by
  rw [terminated, List.flatMap_singleton]

/-- Lines with line feeds between them have one behind each when another is put behind the last. -/
theorem unlines_eq_terminated {lines : List Message} (hne : lines ≠ []) :
    Message.unlines lines ++ .ofText "\n" = terminated lines := by
  induction lines with
  | nil => exact absurd rfl hne
  | cons line lines ih =>
    cases lines with
    | nil => simp [Message.unlines, terminated]
    | cons next lines =>
      have hlater := ih (by simp)
      rw [terminated, List.flatMap_cons, ← terminated, ← hlater, Message.unlines,
        List.intercalate_cons_cons, ← Message.unlines]
      simp only [List.append_assoc]

/-- Errors are reported below a head, each with a bullet. -/
theorem reportAll_eq_terminated {ε : Type} {errors : List ε} (message : ε → Message)
    (hne : errors ≠ []) :
    reportAll (errors.map message) ++ .ofText "\n" =
      terminated (headline :: errors.map fun error => bullet (message error)) := by
  have hbullets : Message.unlines ((errors.map message).map bullet) ++ .ofText "\n" =
      terminated (errors.map fun error => bullet (message error)) := by
    rw [List.map_map]
    exact unlines_eq_terminated (by simpa using hne)
  have hhead : Message.ofText "✘ Hook generation failed:\n" = headline ++ .ofText "\n" :=
    Message.ofText_append "✘ Hook generation failed:" "\n"
  rw [terminated, List.flatMap_cons, ← terminated, ← hbullets, ← hhead, ← List.append_assoc]
  rfl

/-- The first failure of a command is reported line by line, if there are lines for it. -/
theorem FirstFailure.message_eq {tree : FileTree} {arguments : GenerateArguments}
    {failure : Failure} (h : FirstFailure tree arguments failure)
    (hsound : ¬Crashes tree arguments) :
    failure.message ++ .ofText "\n" = terminated failure.lines := by
  cases h with
  | config h => exact (terminated_singleton _).symm
  | discovery hconfig h =>
    exact reportAll_eq_terminated (fun error : WalkError => .ofText error.message) h
  | @loading config places hprepared place hplace failure h =>
    refine reportAll_eq_terminated LoadError.message ?_
    rw [hprepared.crashes_iff, List.mem_map, not_exists] at hsound
    rw [Ne, List.flatMap_eq_nil_iff]
    intro hall
    have hnone := hall _ hplace
    cases failure with
    | crashed => exact hsound place ⟨hplace, h⟩
    | errors errors =>
      rw [h] at hnone
      exact ne_nil_of_loadFile h hnone
  | @emission _ _ _ error _ =>
    exact reportAll_eq_terminated (fun error : HookCollision => .ofText error.message)
      (List.cons_ne_nil error [])
  | writing hloaded hemit hpath h => exact (terminated_singleton _).symm

/-- What is said of a crash is not what is reported of errors below a head. -/
theorem terminated_crash_ne (lines : List Message) :
    terminated [.omitted .crash] ≠ terminated (headline :: lines) := by
  have hhead : headline = .char '✘' :: headline.tail := by decide
  rw [hhead, terminated_singleton, terminated, List.flatMap_cons]
  exact fun h => Mark.noConfusion (List.cons.inj h).1

/-- No failure ends with the status for success. -/
theorem Failure.status_ne_zero (failure : Failure) : failure.status ≠ 0 := by
  cases failure <;> simp [status]

/-! ## How the program ends -/

section Ending

variable {tree after : FileTree} {arguments : List String} {verbose : Bool}
  {parsed : GenerateArguments}

/-- Choosing how much is logged changes neither the files nor what is printed or reported. -/
theorem exists_run_setUpLog (tree : FileTree) (verbose : Bool) (asked? : Option String) :
    ∃ level log, (Command.setUpLog verbose asked?).run { tree } = ((), { tree, level, log }) := by
  rw [Command.setUpLog]
  obtain ⟨level, warning?⟩ := LogLevel.choose verbose asked?
  obtain ⟨written, hlevel⟩ := World.exists_record_eq { tree, level }
    ⟨.trace, "Logging at `" ++ level.name ++ "`."⟩
  cases warning? with
  | none => exact ⟨level, written, congrArg (Prod.mk ()) hlevel⟩
  | some warning =>
    obtain ⟨log, hwarning⟩ := World.exists_record_eq { tree, level, log := written } warning
    refine ⟨level, log, congrArg (Prod.mk ()) ?_⟩
    exact (congrArg (·.record warning) hlevel).trans hwarning

/--
The status with which a command ends, and the world behind what it prints or reports at its end.
-/
def World.concluded (world : World) : Except Failure String → Nat × World
  | .ok message => (0, world.print (.ofText message))
  | .error failure => (failure.status, world.report failure.message)

/-- What a command has led to is followed by what it prints or reports at its end. -/
theorem conclude_eq {command : Run String} {result : Except Failure String} {world later : World}
    (h : command.run.run world = (result, later)) :
    (conclude command).run world = later.concluded result := by
  rw [conclude, StateT.run_bind, h]
  cases result <;> rfl

/-- The program ends as the command does, with the files that this has left. -/
theorem exists_run_eq (hparsed : Invocation.ofArguments arguments = .generate verbose parsed)
    (level? : Option String) {result : Except Failure String}
    (h : Leads (generate parsed) tree result after) :
    ∃ level log, Command.run tree arguments level? =
      let (status, world) := World.concluded { tree := after, level, log } result
      ⟨status, world⟩ := by
  obtain ⟨level, written, hlog⟩ := exists_run_setUpLog tree verbose level?
  obtain ⟨log, hrun⟩ := h { tree, level, log := written } rfl
  refine ⟨level, log, ?_⟩
  have hexecute : (Command.execute level? (.generate verbose parsed)).run { tree } =
      (conclude (generate parsed)).run { tree, level, log := written } := by
    rw [Command.execute, StateT.run_bind, hlog]
    rfl
  rw [Command.run, hparsed, hexecute, conclude_eq hrun]

end Ending

/--
A command ends with the status for success exactly if all its stages succeed.  Otherwise it prints
nothing and leaves all files as they are, and it has one first failure.  What it reports are the
lines of that, unless the program crashes at one of the documents: then it ends with another status,
and the crash is all that is reported.
-/
theorem command_reports_first_failure {tree : FileTree} {arguments : List String} {verbose : Bool}
    {parsed : GenerateArguments}
    (hparsed : Invocation.ofArguments arguments = .generate verbose parsed)
    {level? : Option String} {outcome : Command.Outcome}
    (hrun : Command.run tree arguments level? = outcome) :
    (outcome.status = 0 ↔ Completes tree parsed) ∧
      (outcome.status ≠ 0 →
        outcome.world.printed = [] ∧ outcome.world.tree = tree ∧
        ∃ failure, (∀ other, FirstFailure tree parsed other ↔ other = failure) ∧
          (outcome.world.reported = terminated failure.lines ↔ ¬Crashes tree parsed)) ∧
      (Crashes tree parsed →
        outcome.status = 101 ∧ outcome.world.reported = terminated [.omitted .crash]) := by
  rcases completes_or_firstFailure tree parsed with hcompletes | ⟨failure, hfailure⟩
  · obtain ⟨message, after, hleads⟩ := hcompletes.leads_generate
    obtain ⟨level, log, hends⟩ := exists_run_eq hparsed level? hleads
    obtain rfl := hrun.symm.trans hends
    refine ⟨iff_of_true rfl hcompletes, fun hstatus => absurd rfl hstatus, fun hcrash => ?_⟩
    exact absurd hcrash hcompletes.not_crashes
  · have hnot : ¬Completes tree parsed := fun hcompletes =>
      hcompletes.not_firstFailure failure hfailure
    have hunique (other : Failure) : FirstFailure tree parsed other ↔ other = failure := by
      constructor
      · exact hfailure.unique
      · rintro rfl
        exact hfailure
    by_cases hcrash : Crashes tree parsed
    · obtain ⟨level, log, hends⟩ := exists_run_eq hparsed level? hcrash.leads_generate
      obtain rfl := hrun.symm.trans hends
      have hreported : Failure.crashed.message ++ .ofText "\n" = terminated [.omitted .crash] :=
        (terminated_singleton _).symm
      obtain ⟨config, places, hprepared, _⟩ := id hcrash
      obtain rfl := hfailure.eq_loading hcrash hprepared
      refine ⟨iff_of_false (by simp [World.concluded, Failure.status]) hnot,
        fun _ => ⟨rfl, rfl, _, hunique, ?_⟩, fun _ => ⟨rfl, hreported⟩⟩
      refine iff_of_false (fun h => ?_) (not_not_intro hcrash)
      exact terminated_crash_ne _ (hreported.symm.trans h)
    · obtain ⟨level, log, hends⟩ := exists_run_eq hparsed level? (hfailure.leads_generate hcrash)
      obtain rfl := hrun.symm.trans hends
      refine ⟨iff_of_false failure.status_ne_zero hnot, fun _ => ⟨rfl, rfl, failure, hunique, ?_⟩,
        fun h => absurd h hcrash⟩
      exact iff_of_true (hfailure.message_eq hcrash) hcrash

/-- A tree with one document. -/
def loneTree : FileTree where
  entries := [(["a.graphql"], .file [])]
  workingDirectory := []

/-- The document between two paths that lead nowhere. -/
def loneArguments : GenerateArguments where
  output? := some ⟨"out.ts"⟩
  paths := [⟨"lost"⟩, ⟨"a.graphql"⟩, ⟨"gone"⟩]

/-- Two of the three paths lead nowhere. -/
theorem scanErrors_loneTree : loneTree.scanErrors loneArguments =
    [.unresolved ⟨"lost"⟩ .notFound, .unresolved ⟨"gone"⟩ .notFound] := by
  cbv

/-- The command line that asks for them. -/
theorem ofArguments_loneArguments :
    Invocation.ofArguments ["generate", "-o", "out.ts", "lost", "a.graphql", "gone"] =
      .generate false loneArguments := by
  have hoption : Flag.ofArgument? "-o" = some (.option .output none) := by decide
  simp [Invocation.ofArguments, Invocation.readCommand, Invocation.readGenerate,
    Invocation.ofGenerate, isFlag, hoption, GenerateArguments.set?, GenerateArguments.setPath?,
    GenerateArguments.addPath?, loneArguments]

/-- Both paths are reported, and no module is written. -/
theorem run_loneTree :
    Invocation.ofArguments ["generate", "-o", "out.ts", "lost", "a.graphql", "gone"] =
        .generate false loneArguments ∧
      ∃ outcome,
        Command.run loneTree ["generate", "-o", "out.ts", "lost", "a.graphql", "gone"] none =
          outcome ∧
        outcome.status ≠ 0 ∧ outcome.world.printed = [] ∧ outcome.world.tree = loneTree ∧
        outcome.world.reported =
          terminated [.ofText "✘ Hook generation failed:",
            .ofText "  * IO error for operation on lost: No such file or directory (os error 2)",
            .ofText
              "  * IO error for operation on gone: No such file or directory (os error 2)"] := by
  have hscan : loneTree.scanErrors loneArguments ≠ [] := by
    rw [scanErrors_loneTree]
    exact List.cons_ne_nil _ _
  have hconfig : loneArguments.configuration loneTree = .ok {} := rfl
  have hlines : (Failure.discovery (loneTree.scanErrors loneArguments)).lines =
      [.ofText "✘ Hook generation failed:",
        .ofText "  * IO error for operation on lost: No such file or directory (os error 2)",
        .ofText "  * IO error for operation on gone: No such file or directory (os error 2)"] := by
    rw [scanErrors_loneTree, Failure.lines, List.map_cons, List.map_singleton, bullet_ofText,
      bullet_ofText]
    rfl
  have hsound : ¬Crashes loneTree loneArguments :=
    fun ⟨_, _, hprepared, _⟩ => hscan hprepared.scanErrors
  obtain ⟨outcome, hrun⟩ : ∃ outcome,
      Command.run loneTree ["generate", "-o", "out.ts", "lost", "a.graphql", "gone"] none =
        outcome :=
    ⟨_, rfl⟩
  obtain ⟨hstatus, hfails, _⟩ := command_reports_first_failure ofArguments_loneArguments hrun
  have hne : outcome.status ≠ 0 := by
    rw [Ne, hstatus]
    exact fun ⟨_, _, _, hloaded, _⟩ => hscan hloaded.scanErrors
  obtain ⟨hprinted, htree, failure, hfirst, hreported⟩ := hfails hne
  obtain rfl := (hfirst _).1 (.discovery hconfig hscan)
  rw [← hlines]
  exact ⟨ofArguments_loneArguments, outcome, hrun, hne, hprinted, htree, hreported.2 hsound⟩

/-- A tree with a document at which the program crashes, and one with a query that has no name. -/
def crashingTree : FileTree where
  entries := [
    (["a.graphql"], .file crashingText.toUTF8.toList),
    (["b.graphql"], .file "\x7b f \x7d".toUTF8.toList)]
  workingDirectory := []

/-- Both documents. -/
def crashingArguments : GenerateArguments where
  paths := [⟨"a.graphql"⟩, ⟨"b.graphql"⟩]

/-- The first document crashes the program, and the second one has a mistake. -/
theorem loadAt_crashingTree :
    loadAt crashingTree {} ["a.graphql"] = .error .crashed ∧
      loadAt crashingTree {} ["b.graphql"] =
        .error (.errors [.anonymous ⟨1, 1⟩ (some ⟨"/b.graphql"⟩)]) := by
  have hfirst : crashingTree.readText ⟨"/a.graphql"⟩ = .ok crashingText := by cbv
  have hsecond : crashingTree.readText ⟨"/b.graphql"⟩ = .ok "\x7b f \x7d" := by cbv
  have hplaces : Place.path ["a.graphql"] = ⟨"/a.graphql"⟩ ∧
      Place.path ["b.graphql"] = ⟨"/b.graphql"⟩ := by decide
  have hscan : Document.scan crashingText.toList = crashingScan := by cbv
  have hscanSecond : Document.scan "\x7b f \x7d".toList =
      ⟨[⟨⟨1, 1⟩, .punctuator '\x7b'⟩, ⟨⟨1, 3⟩, .name ['f']⟩, ⟨⟨1, 5⟩, .punctuator '\x7d'⟩],
        .endOfText ⟨1, 6⟩⟩ := by cbv
  constructor
  · rw [loadAt, hplaces.1, loadFile, hfirst]
    dsimp only
    rw [loadText, Document.parse, hscan]
    decide +kernel
  · rw [loadAt, hplaces.2, loadFile, hsecond]
    dsimp only
    rw [loadText, Document.parse, hscanSecond]
    decide +kernel

/-- Both documents are found. -/
theorem prepared_crashingTree :
    Prepared crashingTree crashingArguments {} [["a.graphql"], ["b.graphql"]] := by
  have hscan : crashingTree.scanErrors crashingArguments = [] := by cbv
  have hfiles : (crashingTree.discover crashingArguments.extensions crashingArguments.paths).files =
      [["a.graphql"], ["b.graphql"]] := by cbv
  have hfinds := crashingTree.finds_discover crashingArguments
  rw [hfiles] at hfinds
  exact ⟨rfl, hscan, hfinds⟩

/-- The mistake in the second document is the first failure, but it is not reported. -/
theorem run_crashingTree :
    Invocation.ofArguments ["generate", "a.graphql", "b.graphql"] =
      .generate false crashingArguments ∧
      FirstFailure crashingTree crashingArguments
        (.loading [.anonymous ⟨1, 1⟩ (some ⟨"/b.graphql"⟩)]) ∧
      (Command.run crashingTree ["generate", "a.graphql", "b.graphql"] none).world.reported ≠
        terminated (Failure.loading [.anonymous ⟨1, 1⟩ (some ⟨"/b.graphql"⟩)]).lines := by
  have hparsed : Invocation.ofArguments ["generate", "a.graphql", "b.graphql"] =
      .generate false crashingArguments := by cbv
  obtain ⟨hcrashed, hanonymous⟩ := loadAt_crashingTree
  have hcrash : Crashes crashingTree crashingArguments := by
    rw [prepared_crashingTree.crashes_iff, List.map_cons, hcrashed]
    exact List.mem_cons_self
  have hfailure := FirstFailure.loading prepared_crashingTree List.mem_cons_self hcrashed
  obtain ⟨level, log, hends⟩ := exists_run_eq hparsed none hcrash.leads_generate
  have hreported : Failure.crashed.message ++ .ofText "\n" = terminated [.omitted .crash] :=
    (terminated_singleton _).symm
  refine ⟨hparsed, ?_, ?_⟩
  · simpa [hcrashed, hanonymous, loadErrorsIn] using hfailure
  · rw [hends]
    exact fun h => terminated_crash_ne _ (hreported.symm.trans h)

end QueryHooks
