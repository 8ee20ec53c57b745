import QueryHooks.Proofs.CommandLine.FirstFailure
import QueryHooks.Proofs.Config.Making
import QueryHooks.Proofs.Emission.ModuleLines
import QueryHooks.Proofs.Emission.Ownership
import QueryHooks.Proofs.Operation.Joining

/-!
# Printing and writing a module

A module is printed without the blanks at its end and with a line feed behind it, and it is written
as it is.  Both come to the same text, since a module ends in a semicolon and one line feed.

Main results:

- Theorem `toList_assemble_eq_concat`: the content of a module ends in a semicolon.
- Theorem `trimmed_render`: trimming a module takes away its last line feed only.
- Theorem `FileTree.exists_put_of_write`: writing changes what is at one place below the root.
- Theorem `printed_module_is_the_written_one`: a command prints what it writes with an output file.
-/

namespace QueryHooks

open Run

/-! ## The end of a module -/

/-- Lines end in the last of them. -/
theorem unlines_concat_eq_append (texts : List (List Char)) (last : List Char) :
    ∃ front, Text.unlines (texts ++ [last]) = front ++ last := by
  cases texts with
  | nil => exact ⟨[], by simp [Text.unlines]⟩
  | cons text texts =>
    refine ⟨Text.unlines (text :: texts) ++ ['\n'], ?_⟩
    rw [Text.unlines_append (List.cons_ne_nil _ _) (List.cons_ne_nil _ _), List.append_cons]
    simp [Text.unlines]

/-- The last part of a module is the type of its bundle, which ends in a semicolon. -/
theorem toList_assemble_eq_concat (config : Config) (hooks : List Hook) :
    ∃ front, (config.assemble hooks).toList = front ++ [';'] := by
  obtain ⟨parts, hparts⟩ : ∃ parts, config.parts hooks = parts ++ [bundleType config.affixes] :=
    ⟨_, List.append_cons ..⟩
  obtain ⟨front, hfront⟩ := unlines_concat_eq_append (parts.map String.toList)
    (bundleType config.affixes).toList
  obtain ⟨name, hname⟩ : ∃ name, (bundleType config.affixes).toList = name ++ [';'] := by
    have hend : " = ReturnType<typeof getSdkWithHooks>;".toList =
        " = ReturnType<typeof getSdkWithHooks>".toList ++ [';'] := by decide
    rw [bundleType, String.toList_append, hend, ← List.append_assoc]
    exact ⟨_, rfl⟩
  refine ⟨front ++ name, ?_⟩
  rw [Config.assemble, toList_joinLines, hparts, List.map_append, List.map_singleton, hfront, hname,
    List.append_assoc]

/-- A module whose content ends in no blank has one line feed to lose. -/
theorem trimmed_render {module : Module} {front : List Char} {last : Char}
    (h : module.content.toList = front ++ [last]) (hlast : Text.isBlank last = false) :
    trimmed module.render ++ "\n" = module.render := by
  obtain ⟨before, hrender⟩ : ∃ before, module.render.toList = before ++ [last] ++ ['\n'] := by
    rw [Module.render, String.toList_append, String.toList_append, h, ← List.append_assoc]
    exact ⟨_, rfl⟩
  have htrimmed : (trimmed module.render).toList = before ++ [last] := by
    rw [trimmed, String.toList_ofList, hrender, Text.trimEnd_concat_blank (by decide),
      Text.trimEnd_concat hlast]
  rw [← String.toList_inj, String.toList_append, htrimmed, hrender]
  rfl

/-- What is emitted is printed as it would be written. -/
theorem trimmed_render_of_emit {emitter : Emitter} {module : Module}
    (h : emitter.emit = .ok module) :
    trimmed module.render ++ "\n" = module.render := by
  obtain ⟨hooks, hhooks, _⟩ := Emitter.exists_hooks_of_emit h
  obtain rfl := Emitter.eq_of_emit hhooks h
  obtain ⟨front, hfront⟩ := toList_assemble_eq_concat emitter.config hooks
  exact trimmed_render hfront (by decide)

/-! ## Where a file is written -/

namespace FileTree

open Config (bind_eq_ok)

theorem throw_ne_ok {fault : Fault} {place : Place} :
    (throw fault : Except Fault Place) ≠ .ok place :=
  fun h => Except.noConfusion rfl rfl (heq_of_eq h)

/--
A file to be written has a name in some directory, or it is where a link at the end of a path leads.
-/
theorem destinationFrom_cases {tree : FileTree} {links : Nat} {here place : Place}
    {parts : List String} (h : tree.destinationFrom links here parts = .ok place) :
    (∃ directory name, place = directory ++ [name]) ∨
      ∃ fewer here' parts', links = fewer + 1 ∧
        tree.destinationFrom fewer here' parts' = .ok place := by
  rw [destinationFrom] at h
  split at h
  case h_1 => exact absurd h throw_ne_ok
  case h_2 front last _ =>
  obtain ⟨directory, _, h⟩ := bind_eq_ok h
  split at h
  case h_1 => exact absurd h throw_ne_ok
  case h_3 => exact absurd h throw_ne_ok
  split at h
  case isTrue => exact absurd h throw_ne_ok
  split at h
  case h_1 => exact .inl ⟨directory, last, (Except.ok.inj h).symm⟩
  case h_2 => exact .inl ⟨directory, last, (Except.ok.inj h).symm⟩
  case h_3 => exact absurd h throw_ne_ok
  case h_4 target _ =>
    cases links with
    | zero => exact absurd h throw_ne_ok
    | succ fewer =>
      dsimp only at h
      split at h
      · exact absurd h throw_ne_ok
      · exact .inr ⟨fewer, _, _, rfl, h⟩

/-- A file is written below the root. -/
theorem ne_nil_of_destinationFrom {tree : FileTree} {links : Nat} {here place : Place}
    {parts : List String} (h : tree.destinationFrom links here parts = .ok place) : place ≠ [] := by
  induction links generalizing here parts with
  | zero =>
    rcases destinationFrom_cases h with ⟨directory, name, rfl⟩ | ⟨fewer, _, _, hlinks, _⟩
    · exact List.append_ne_nil_of_right_ne_nil _ (List.cons_ne_nil _ _)
    · exact absurd hlinks (Nat.succ_ne_zero fewer).symm
  | succ links ih =>
    rcases destinationFrom_cases h with ⟨directory, name, rfl⟩ | ⟨fewer, _, _, hlinks, hlater⟩
    · exact List.append_ne_nil_of_right_ne_nil _ (List.cons_ne_nil _ _)
    · rw [← Nat.succ.inj hlinks] at hlater
      exact ih hlater

/-- The root is no place for a file. -/
theorem ne_nil_of_destination {tree : FileTree} {path : Path} {place : Place}
    (h : tree.destination path = .ok place) : place ≠ [] := by
  rw [destination] at h
  split at h
  · exact absurd h (by simp)
  · exact ne_nil_of_destinationFrom h

/-- Where there is a place for it, a text is written there, and nothing else changes. -/
theorem write_of_destination {tree : FileTree} {path : Path} {place : Place}
    (h : tree.destination path = .ok place) (text : String) :
    ∃ after, tree.write path text = .ok after ∧
      after.lookup place = some (.file text.toUTF8.toList) ∧
      ∀ other, other ≠ place → after.lookup other = tree.lookup other := by
  refine ⟨_, by rw [write, h]; rfl, lookup_put (ne_nil_of_destination h), ?_⟩
  intro other hother
  exact lookup_put_of_ne hother

end FileTree

/-! ## Commands -/

section Commands

variable {tree : FileTree} {arguments : GenerateArguments} {config : Config} {places : List Place}

/-- A command with an output file goes as far as the command without one. -/
theorem Loaded.withOutput (h : Loaded tree arguments config places) (output? : Option Path) :
    Loaded tree { arguments with output? } config places :=
  ⟨⟨h.configuration, h.scanErrors, ⟨h.finds.ordered, h.finds.mem_iff⟩⟩, h.loads⟩

/-- A command that ends with the status for success has made a module. -/
theorem exists_module_of_status_eq_zero {invocation : List String} {verbose : Bool}
    (hparsed : Invocation.ofArguments invocation = .generate verbose arguments)
    {level? : Option String} {outcome : Command.Outcome}
    (hrun : Command.run tree invocation level? = outcome)
    (hstatus : outcome.status = 0) :
    ∃ config places module, Loaded tree arguments config places ∧
      (recordedAt tree config places).emit = .ok module := by
  rcases completes_or_firstFailure tree arguments with hcompletes | ⟨failure, hfailure⟩
  · obtain ⟨config, places, module, hloaded, hemit, _⟩ := hcompletes
    exact ⟨config, places, module, hloaded, hemit⟩
  · obtain ⟨other, hleads⟩ := hfailure.exists_leads_generate
    obtain ⟨level, log, hends⟩ := exists_run_eq hparsed level? hleads
    obtain rfl := hrun.symm.trans hends
    exact absurd hstatus other.status_ne_zero

/--
A command that prints a module succeeds just as well with an output file, if there is a place where
this can be written.  Then the file has the very bytes that are printed otherwise, and no other file
changes.
-/
theorem printed_module_is_the_written_one {printing writing : List String} {verbose verbose' : Bool}
    {path : Path} (hprinting : Invocation.ofArguments printing = .generate verbose arguments)
    (hnone : arguments.output? = none)
    (hwriting : Invocation.ofArguments writing =
      .generate verbose' { arguments with output? := some path })
    {level? level'? : Option String} {printed written : Command.Outcome}
    (hprint : Command.run tree printing level? = printed)
    (hwrite : Command.run tree writing level'? = written) (hstatus : printed.status = 0) :
    (written.status = 0 ↔ ∃ place, tree.destination path = .ok place) ∧
      ∃ text, printed.world.printed = .ofText text ∧
        ∀ place, tree.destination path = .ok place →
          written.world.tree.lookup place = some (.file text.toUTF8.toList) ∧
          ∀ other, other ≠ place → written.world.tree.lookup other = tree.lookup other := by
  obtain ⟨config, places, module, hloaded, hemit⟩ :=
    exists_module_of_status_eq_zero hprinting hprint hstatus
  have htext := trimmed_render_of_emit hemit
  have hdelivered :=
    leads_deliver_print tree module (operationsAt tree config places).length places.length
  rw [← hnone] at hdelivered
  obtain ⟨level, log, hprinted⟩ :=
    exists_run_eq hprinting level? (hloaded.leads_delivery hemit hdelivered)
  obtain rfl := hprint.symm.trans hprinted
  have hsaid : (World.print { tree, level, log } (.ofText (trimmed module.render))).printed =
      .ofText module.render := by
    rw [World.print, List.nil_append, ← Message.ofText_append, htext]
  -- The second command goes the same way up to the delivery.
  have hloaded' := hloaded.withOutput (some path)
  cases hplace : tree.destination path with
  | error fault =>
    have hfault : tree.write path module.render = .error fault := by
      rw [FileTree.write, hplace]
      rfl
    have hfails := hloaded'.leads_delivery hemit (leads_deliver_fault hfault _ _)
    obtain ⟨level', log', hends⟩ := exists_run_eq hwriting level'? hfails
    obtain rfl := hwrite.symm.trans hends
    exact ⟨iff_of_false Nat.one_ne_zero (by simp), module.render, hsaid, by simp⟩
  | ok place =>
    obtain ⟨after, hafter, hfile, hothers⟩ := FileTree.write_of_destination hplace module.render
    obtain ⟨message, hmessage⟩ := leads_deliver_write hafter
      (operationsAt tree config places).length places.length
    obtain ⟨level', log', hends⟩ :=
      exists_run_eq hwriting level'? (hloaded'.leads_delivery hemit hmessage)
    obtain rfl := hwrite.symm.trans hends
    refine ⟨iff_of_true rfl ⟨place, rfl⟩, module.render, hsaid, ?_⟩
    intro other hother
    obtain rfl := Except.ok.inj hother
    exact ⟨hfile, hothers⟩

end Commands

/-- A tree with a query in its only document. -/
def documentTree : FileTree where
  entries := [(["a.graphql"], .file "query A \x7b f \x7d # the end".toUTF8.toList)]
  workingDirectory := []

/-- The document, and no file to write to. -/
def documentArguments : GenerateArguments where
  paths := [⟨"a.graphql"⟩]

/-- The query of the document. -/
def documentQuery : Operation where
  kind := .query
  name := "A"
  resultType := "AQuery"
  variablesType := "AQueryVariables"
  declared := []
  distinct := List.nodup_nil

/-- The document gives its query. -/
theorem loadAt_documentTree : loadAt documentTree {} ["a.graphql"] = .ok [documentQuery] := by
  have hread : documentTree.readText ⟨"/a.graphql"⟩ = .ok "query A \x7b f \x7d # the end" := by cbv
  have hplace : Place.path ["a.graphql"] = ⟨"/a.graphql"⟩ := by decide
  rw [loadAt, hplace, loadFile, hread]
  dsimp only
  rw [loadText, Document.parse, scan_commentedDocuments.1]
  decide

/-- The only document of the tree is found, and it loads. -/
theorem loaded_documentTree : Loaded documentTree documentArguments {} [["a.graphql"]] := by
  have hscan : documentTree.scanErrors documentArguments = [] := by cbv
  have hfiles : (documentTree.discover documentArguments.extensions documentArguments.paths).files =
      [["a.graphql"]] := by cbv
  have hfinds := documentTree.finds_discover documentArguments
  rw [hfiles] at hfinds
  exact ⟨⟨rfl, hscan, hfinds⟩, List.forall_mem_singleton.2 ⟨_, loadAt_documentTree⟩⟩

/-- Its query makes a module. -/
theorem exists_emit_documentTree :
    ∃ module, (recordedAt documentTree {} [["a.graphql"]]).emit = .ok module := by
  have hhooks : (recordedAt documentTree {} [["a.graphql"]]).hooks =
      .ok (hooksOf documentQuery {}) := by
    rw [recordedAt, operationsAt, List.flatMap_singleton, loadAt_documentTree]
    cbv
  exact Emitter.exists_emit_of_hooks hhooks

/-- The module of the document is printed, or written into a file that is new. -/
theorem run_documentTree :
    Invocation.ofArguments ["generate", "a.graphql"] = .generate false documentArguments ∧
      Invocation.ofArguments ["generate", "a.graphql", "--output=out.ts"] =
        .generate false { documentArguments with output? := some ⟨"out.ts"⟩ } ∧
      ∃ printed written text,
        Command.run documentTree ["generate", "a.graphql"] none = printed ∧
        Command.run documentTree ["generate", "a.graphql", "--output=out.ts"] none = written ∧
        printed.status = 0 ∧ written.status = 0 ∧ printed.world.printed = .ofText text ∧
        written.world.tree.lookup ["out.ts"] = some (.file text.toUTF8.toList) := by
  have hprinting : Invocation.ofArguments ["generate", "a.graphql"] =
      .generate false documentArguments := by cbv
  have hwriting : Invocation.ofArguments ["generate", "a.graphql", "--output=out.ts"] =
      .generate false { documentArguments with output? := some ⟨"out.ts"⟩ } := by
    cbv
  have hplace : documentTree.destination ⟨"out.ts"⟩ = .ok ["out.ts"] := by cbv
  obtain ⟨printed, hprint⟩ : ∃ printed,
      Command.run documentTree ["generate", "a.graphql"] none = printed := ⟨_, rfl⟩
  obtain ⟨written, hwrite⟩ : ∃ written,
      Command.run documentTree ["generate", "a.graphql", "--output=out.ts"] none = written :=
    ⟨_, rfl⟩
  have hstatus : printed.status = 0 := by
    obtain ⟨module, hemit⟩ := exists_emit_documentTree
    have hleads := loaded_documentTree.leads_delivery hemit (leads_deliver_print _ _ _ _)
    obtain ⟨level, log, hends⟩ := exists_run_eq hprinting none hleads
    obtain rfl := hprint.symm.trans hends
    rfl
  obtain ⟨hsucceeds, text, hprinted, hfile⟩ :=
    printed_module_is_the_written_one hprinting rfl hwriting hprint hwrite hstatus
  exact ⟨hprinting, hwriting, printed, written, text, hprint, hwrite, hstatus,
    hsucceeds.2 ⟨_, hplace⟩, hprinted, (hfile _ hplace).1⟩

end QueryHooks
