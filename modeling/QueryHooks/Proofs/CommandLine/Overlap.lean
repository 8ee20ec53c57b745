import QueryHooks.Proofs.CommandLine.Delivery
import QueryHooks.Proofs.FileTree.Walking

/-!
# Order and overlap of paths

The documents of a command are a set of places, which are put in order, so it does not matter in
which order walks come to them, or how often.  Paths may be given in any order, directories may be
listed in any order, and a path may be given again or lie below another one.  Only where there is no
document with one of the extensions does the number of paths matter, since a file that is the only
path is taken then.

Main results:

- Definition `FileTree.Discovers`: a discovery by walks that list directories in any order.
- Definition `FileTree.Rescans`: the paths of a command in any order, with some that its walks come
  to.
- Theorem `FileTree.WellFormed.mem_visits_iff`: walks from such paths come to the same.
- Theorem `FileTree.WellFormed.find_of_mem_files`: documents are files at the ends of their paths.
- Theorem `exists_leads_generateFrom`: what a command leads to depends on the documents only.
- Theorem `discovery_ignores_order_and_overlap`: order and overlap of paths do not matter.
-/

namespace QueryHooks

open Run

namespace FileTree

variable {tree : FileTree} {arguments : GenerateArguments} {extensions : List String}
  {paths : List Path} {visits : List Visit}

/-! ## Discoveries by other walks -/

/-- The discovery that comes of walks from some paths. -/
def discoveryOf (tree : FileTree) (extensions : List String) (paths : List Path)
    (visits : List Visit) :
    Discovery :=
  let documents := documentsIn extensions visits
  let exception? := if documents.isEmpty then tree.onlyFile? paths else none
  { files := arrange (documents ++ exception?.toList), errors := errorsIn visits, exception? }

/--
A discovery comes of walks from some paths that list the entries of each directory in any order.
-/
def Discovers (tree : FileTree) (extensions : List String) (paths : List Path)
    (discovery : Discovery) :
    Prop :=
  ∃ visits, tree.WalksAll paths visits ∧ discovery = tree.discoveryOf extensions paths visits

/-- The discovery of a command lists entries in the order of the tree. -/
theorem discovers_discover (tree : FileTree) (extensions : List String) (paths : List Path) :
    tree.Discovers extensions paths (tree.discover extensions paths) :=
  ⟨_, tree.walksAll_flatMap paths, rfl⟩

/-- Places are arranged in the same way wherever they come from, and however often. -/
theorem arrange_eq_arrange {places others : List Place}
    (h : ∀ place, place ∈ places ↔ place ∈ others) :
    arrange places = arrange others := by
  refine eq_of_ordered (pairwise_arrange places) (pairwise_arrange others) fun place => ?_
  rw [mem_arrange, mem_arrange, h]

/-- Which file is the only one does not depend on the order of the paths. -/
theorem onlyFile?_of_perm {others : List Path} (h : paths.Perm others) :
    tree.onlyFile? paths = tree.onlyFile? others := by
  match paths, others with
  | [path], others => rw [List.singleton_perm.1 h]
  | paths, [path] => rw [List.perm_singleton.1 h]
  | [], [] => rfl
  | [], _ :: _ :: _ => rfl
  | _ :: _ :: _, [] => rfl
  | _ :: _ :: _, _ :: _ :: _ => rfl

/--
Walks that come to the same lead to the same files, if the only path is the same or does not matter.
-/
theorem files_discoveryOf_eq {others : List Visit} {otherPaths : List Path}
    (hvisits : ∀ visit, visit ∈ visits ↔ visit ∈ others)
    (honly : tree.onlyFile? paths = tree.onlyFile? otherPaths ∨
      documentsIn extensions others ≠ []) :
    (tree.discoveryOf extensions paths visits).files =
      (tree.discoveryOf extensions otherPaths others).files := by
  have hdocuments (place : Place) :
      place ∈ documentsIn extensions visits ↔ place ∈ documentsIn extensions others := by
    simp only [mem_documentsIn_iff, hvisits]
  have hempty : documentsIn extensions visits = [] ↔ documentsIn extensions others = [] := by
    simp only [List.eq_nil_iff_forall_not_mem, hdocuments]
  refine arrange_eq_arrange fun place => ?_
  rw [List.mem_append, List.mem_append, hdocuments]
  by_cases hnone : documentsIn extensions others = []
  · have honly := honly.resolve_right (not_not_intro hnone)
    simp only [hempty.2 hnone, hnone, honly]
  · simp only [List.isEmpty_iff, mt hempty.1 hnone, hnone, if_false]

/-! ## The same paths again -/

/-- The walks from the paths of a command come to a path. -/
def Visits (tree : FileTree) (arguments : GenerateArguments) (path : Path) : Prop :=
  ∃ found, .ok found ∈ arguments.paths.flatMap tree.walk ∧ found.path = path

/--
The paths of a command in any order.  If there is a document with one of the extensions, there may
be more paths: some of them again, or some that the walks from them come to.
-/
def Rescans (tree : FileTree) (arguments : GenerateArguments) (paths : List Path) : Prop :=
  ∃ more, paths.Perm (more ++ arguments.paths) ∧
    (more = [] ∨ ∃ place, tree.HasDocument arguments place) ∧
    ∀ path ∈ more, path ∈ arguments.paths ∨ tree.Visits arguments path

/-- If there is no error at all, none of the walks has one. -/
theorem isClean_walk (hscan : tree.scanErrors arguments = []) {path : Path}
    (hpath : path ∈ arguments.paths) : IsClean (tree.walk path) :=
  errorsIn_eq_nil_iff.1 (List.flatMap_eq_nil_iff.1 hscan path hpath)

/-- Walks from paths that the walks of a command come to come to the same. -/
theorem WellFormed.mem_visits_iff (hwf : tree.WellFormed) (hscan : tree.scanErrors arguments = [])
    (hpaths : tree.Rescans arguments paths) (hvisits : tree.WalksAll paths visits) (visit : Visit) :
    visit ∈ visits ↔ visit ∈ arguments.paths.flatMap tree.walk := by
  obtain ⟨more, hperm, _, hmore⟩ := hpaths
  rw [hvisits.perm.mem_iff, (hperm.flatMap_right tree.walk).mem_iff, List.flatMap_append,
    List.mem_append]
  refine or_iff_right_of_imp fun hvisit => ?_
  obtain ⟨path, hpath, hvisit⟩ := List.mem_flatMap.1 hvisit
  rcases hmore path hpath with hagain | ⟨found, hfound, rfl⟩
  · exact List.mem_flatMap.2 ⟨path, hagain, hvisit⟩
  · obtain ⟨start, hstart, hfound⟩ := List.mem_flatMap.1 hfound
    have hsubset := hwf.walk_subset_of_mem_walk (isClean_walk hscan hstart) hfound
    exact List.mem_flatMap.2 ⟨start, hstart, hsubset hvisit⟩

/-- A discovery from the same paths again has no errors, and it has the same files. -/
theorem WellFormed.discovery_eq (hwf : tree.WellFormed) (hscan : tree.scanErrors arguments = [])
    (hpaths : tree.Rescans arguments paths) {discovery : Discovery}
    (hdiscovery : tree.Discovers arguments.extensions paths discovery) :
    discovery.errors = [] ∧
      discovery.files = (tree.discover arguments.extensions arguments.paths).files := by
  obtain ⟨visits, hvisits, rfl⟩ := hdiscovery
  have hmem := hwf.mem_visits_iff hscan hpaths hvisits
  constructor
  · refine errorsIn_eq_nil_iff.2 fun error herror => ?_
    obtain ⟨path, hpath, herror⟩ := List.mem_flatMap.1 ((hmem _).1 herror)
    exact isClean_walk hscan hpath error herror
  · refine files_discoveryOf_eq hmem ?_
    obtain ⟨more, hperm, hnone | ⟨place, hplace⟩, _⟩ := hpaths
    · subst hnone
      exact .inl (onlyFile?_of_perm hperm)
    · exact .inr (List.ne_nil_of_mem (mem_documents_iff.2 hplace))

/-! ## Canonical paths -/

/-- A path that leads to a file leads to its bytes. -/
theorem find_of_isFile {path : Path} (hfile : tree.isFile path = true) {place : Place}
    (hplace : tree.resolve path = .ok place) :
    ∃ content, tree.find path = .ok (place, .file content) := by
  have hfind := find_of_resolve hplace
  rw [isFile] at hfile
  cases hentry : tree.lookup place with
  | none =>
    rw [hfind, hentry] at hfile
    exact absurd hfile (by simp)
  | some entry =>
    rw [hentry] at hfind
    rw [hfind] at hfile
    cases entry with
    | file content => exact ⟨content, hfind⟩
    | directory => exact absurd hfile (by simp)
    | symlink target => exact absurd hfile (by simp)

/-- The documents of a command are files, and their paths lead to them with no links on the way. -/
theorem WellFormed.find_of_mem_files (hwf : tree.WellFormed) {place : Place}
    (hplace : place ∈ (tree.discover arguments.extensions arguments.paths).files) :
    ∃ content, tree.find place.path = .ok (place, .file content) := by
  have hholds : ∃ content, tree.Holds place (.file content) := by
    rcases (tree.finds_discover arguments).mem_iff place |>.1 hplace with
      ⟨path, _, found, hfound, hdocument, rfl⟩ | ⟨_, path, _, hfile, hresolve⟩
    · rw [isDocument, Bool.and_eq_true] at hdocument
      exact hwf.exists_holds_of_isAt (hwf.isAt_of_mem_walk hfound) hdocument.1
    · obtain ⟨content, hfind⟩ := find_of_isFile hfile hresolve
      exact ⟨content, hwf.holds_of_find hfind⟩
  obtain ⟨content, hholds⟩ := hholds
  refine ⟨content, hwf.find_path hholds ?_⟩
  rintro rfl
  exact absurd hholds.lookup (by simp)

end FileTree

/-! ## Commands -/

/-- Generate a module from the documents of a discovery, of which something is noted. -/
def generateFrom (arguments : GenerateArguments) (notes : List String) (discovery : Discovery) :
    Run String := do
  note .debug "Running `generate`."
  let config ← readConfig arguments.config?
  let places ← reportDiscovery arguments notes discovery
  let operations ← loadDocuments config.affixes places
  let emitter := (Emitter.mk config {}).recordAll operations
  let module ← makeModule emitter
  deliver arguments.output? module operations.length places.length

/--
What a command leads to depends on the documents, and not on the paths where these were found or on
what is noted of the search: so it does for a command that looks for its documents, and for one that
is given them.
-/
theorem exists_leads_generateFrom (tree : FileTree) (arguments : GenerateArguments)
    (hscan : tree.scanErrors arguments = []) {files : List Place}
    (hfiles : (tree.discover arguments.extensions arguments.paths).files = files) :
    ∃ result after, Leads (generate arguments) tree result after ∧
      ∀ paths notes discovery, discovery.errors = [] → discovery.files = files →
        Leads (generateFrom { arguments with paths } notes discovery) tree result after := by
  have hread := leads_readConfig tree arguments
  cases hconfig : arguments.configuration tree with
  | error error =>
    rw [hconfig] at hread
    refine ⟨_, _, leads_bind (leads_note _ _) (leads_bind_error hread), ?_⟩
    exact fun _ _ _ _ _ => leads_bind (leads_note _ _) (leads_bind_error hread)
  | ok config =>
    rw [hconfig] at hread
    obtain ⟨result, after, hrest⟩ : ∃ result after, Leads (do
        let operations ← loadDocuments config.affixes files
        let module ← makeModule ((Emitter.mk config {}).recordAll operations)
        deliver arguments.output? module operations.length files.length) tree result after :=
      exists_leads_bind ⟨_, _, leads_loadDocuments tree config files⟩ fun operations between =>
        exists_leads_bind ⟨_, _, leads_makeModule between _⟩ fun module later =>
          exists_leads_deliver later ..
    refine ⟨result, after, ?_, fun paths notes discovery herrors hsame => ?_⟩
    · have hfind := leads_findDocuments tree arguments
      rw [hscan, hfiles] at hfind
      exact leads_bind (leads_note _ _) (leads_bind hread (leads_bind hfind hrest))
    · have hreport := leads_reportDiscovery tree { arguments with paths } notes discovery
      rw [herrors, hsame] at hreport
      exact leads_bind (leads_note _ _) (leads_bind hread (leads_bind hreport hrest))

/-- A command leads where it does when it is given the documents that it finds. -/
theorem leads_generate_of_generateFrom {tree after : FileTree} {arguments : GenerateArguments}
    (hscan : tree.scanErrors arguments = []) {notes : List String} {result : Except Failure String}
    (h : Leads (generateFrom arguments notes (tree.discover arguments.extensions arguments.paths))
      tree result after) :
    Leads (generate arguments) tree result after := by
  obtain ⟨_, _, hleads, hgiven⟩ := exists_leads_generateFrom tree arguments hscan rfl
  have hsame := hgiven arguments.paths notes _ ((tree.errors_discover arguments).trans hscan) rfl
  obtain ⟨rfl, rfl⟩ := hsame.unique h
  exact hleads

/--
If the walks of a command have no errors, it finds all its documents, in order and each of them
once, and each is a file at the end of its path.  The order of the paths and of the entries of
directories does not matter.  If there is a document with one of the extensions, neither does it
matter whether paths are given again, or paths that the walks come to: there is no error, and the
command finds the same documents, leads to the same result and leaves the same files.
-/
theorem discovery_ignores_order_and_overlap {tree : FileTree} (hwf : tree.WellFormed)
    {arguments : GenerateArguments} (hscan : tree.scanErrors arguments = []) {files : List Place}
    (hfiles : (tree.discover arguments.extensions arguments.paths).files = files) :
    files.Pairwise (fun place other => place.le other = true ∧ place ≠ other) ∧
      (∀ place, place ∈ files ↔ tree.IsFound arguments place) ∧
      (∀ place ∈ files, ∃ content, tree.find place.path = .ok (place, .file content)) ∧
      ∃ result after, Leads (generate arguments) tree result after ∧
        ∀ paths, tree.Rescans arguments paths →
          Leads (generate { arguments with paths }) tree result after ∧
          ∀ discovery, tree.Discovers arguments.extensions paths discovery →
            discovery.errors = [] ∧ discovery.files = files ∧ ∀ notes,
              Leads (generateFrom { arguments with paths } notes discovery) tree result after := by
  obtain ⟨result, after, hleads, hresult⟩ := exists_leads_generateFrom tree arguments hscan hfiles
  subst hfiles
  obtain ⟨hordered, hmem⟩ := tree.finds_discover arguments
  refine ⟨hordered, hmem, fun place => hwf.find_of_mem_files, result, after, hleads, ?_⟩
  intro paths hpaths
  have hgiven (discovery : Discovery)
      (hdiscovery : tree.Discovers arguments.extensions paths discovery) :
      discovery.errors = [] ∧
        discovery.files = (tree.discover arguments.extensions arguments.paths).files ∧
        ∀ notes, Leads (generateFrom { arguments with paths } notes discovery)
          tree result after := by
    obtain ⟨herrors, hsame⟩ := hwf.discovery_eq hscan hpaths hdiscovery
    exact ⟨herrors, hsame, fun notes => hresult paths notes discovery herrors hsame⟩
  refine ⟨?_, hgiven⟩
  obtain ⟨herrors, _, hown⟩ := hgiven _ (tree.discovers_discover arguments.extensions paths)
  have hagain : tree.scanErrors { arguments with paths } = [] :=
    (tree.errors_discover { arguments with paths }).symm.trans herrors
  exact leads_generate_of_generateFrom hagain (hown [])

/-- A document in a directory, with a link to the document and a link to the directory. -/
def linkedTree : FileTree where
  entries := [
    (["docs"], .directory),
    (["docs", "a.gql"], .file "query A \x7b f \x7d".toUTF8.toList),
    (["docs", "b.gql"], .symlink ⟨"a.gql"⟩),
    (["link"], .symlink ⟨"docs"⟩)]
  workingDirectory := []

/-- The directory on two paths, one of them through the link. -/
def linkedArguments : GenerateArguments where
  paths := [⟨"docs"⟩, ⟨"link"⟩]

/-- What a walk from a path of the directory comes to. -/
def linkedVisits (path : Path) : List Visit :=
  [.ok ⟨path, ["docs"], false⟩, .ok ⟨path.join "a.gql", ["docs", "a.gql"], true⟩,
    .ok ⟨path.join "b.gql", ["docs", "a.gql"], true⟩]

/-- The walks from the directory and from the link to it. -/
theorem walk_linkedTree :
    linkedTree.walk ⟨"docs"⟩ = linkedVisits ⟨"docs"⟩ ∧
      linkedTree.walk ⟨"link"⟩ = linkedVisits ⟨"link"⟩ := by
  have hdocs : linkedTree.find ⟨"docs"⟩ = .ok (["docs"], .directory) := by cbv
  have hlink : linkedTree.find ⟨"link"⟩ = .ok (["docs"], .directory) := by cbv
  constructor
  · simp only [FileTree.walk, hdocs]
    rw [FileTree.walkDirectory_eq]
    cbv
  · simp only [FileTree.walk, hlink]
    rw [FileTree.walkDirectory_eq]
    cbv

/-- What both walks come to. -/
theorem flatMap_walk_linkedTree :
    linkedArguments.paths.flatMap linkedTree.walk = linkedVisits ⟨"docs"⟩ ++
      linkedVisits ⟨"link"⟩ := by
  have hpaths : linkedArguments.paths = [⟨"docs"⟩, ⟨"link"⟩] := rfl
  rw [hpaths, List.flatMap_cons, List.flatMap_singleton, walk_linkedTree.1, walk_linkedTree.2]

/-- All four paths lead to the document. -/
theorem documentsIn_linkedTree :
    FileTree.documentsIn linkedArguments.extensions
      (linkedArguments.paths.flatMap linkedTree.walk) =
      List.replicate 4 ["docs", "a.gql"] := by
  rw [flatMap_walk_linkedTree]
  cbv

/-- The link to the document is one of the paths that the walks come to. -/
theorem rescans_linkedTree :
    linkedTree.Rescans linkedArguments [⟨"link"⟩, ⟨"link/b.gql"⟩, ⟨"docs"⟩] := by
  refine ⟨[⟨"link/b.gql"⟩], by decide, .inr ⟨["docs", "a.gql"], ?_⟩, ?_⟩
  · have hdocument : ["docs", "a.gql"] ∈ FileTree.documentsIn linkedArguments.extensions
        (linkedArguments.paths.flatMap linkedTree.walk) := by
      simp [documentsIn_linkedTree]
    exact FileTree.mem_documents_iff.1 hdocument
  · refine List.forall_mem_singleton.2 (.inr ⟨⟨⟨"link/b.gql"⟩, ["docs", "a.gql"], true⟩, ?_, rfl⟩)
    rw [flatMap_walk_linkedTree]
    have hjoin : Path.join ⟨"link"⟩ "b.gql" = ⟨"link/b.gql"⟩ := by cbv
    simp [linkedVisits, hjoin]

/--
The document is found once, though four paths lead to it, and so it is where a fifth one is given.
-/
theorem discovery_of_linkedTree :
    linkedTree.WellFormed ∧ linkedTree.scanErrors linkedArguments = [] ∧
      (linkedTree.discover linkedArguments.extensions linkedArguments.paths).files =
        [["docs", "a.gql"]] ∧
      linkedTree.Rescans linkedArguments [⟨"link"⟩, ⟨"link/b.gql"⟩, ⟨"docs"⟩] ∧
      ∃ result after, Leads (generate linkedArguments) linkedTree result after ∧
        Leads (generate { linkedArguments with paths := [⟨"link"⟩, ⟨"link/b.gql"⟩, ⟨"docs"⟩] })
          linkedTree result after := by
  have hwf : linkedTree.WellFormed := by decide
  have hscan : linkedTree.scanErrors linkedArguments = [] := by
    rw [← FileTree.errors_discover]
    change FileTree.errorsIn (linkedArguments.paths.flatMap linkedTree.walk) = []
    rw [flatMap_walk_linkedTree]
    decide
  have hfiles : (linkedTree.discover linkedArguments.extensions linkedArguments.paths).files =
      [["docs", "a.gql"]] := by
    refine FileTree.eq_of_ordered (FileTree.pairwise_arrange _)
      (List.pairwise_singleton _ _) fun place => ?_
    change place ∈ (linkedTree.discoveryOf _ _
      (linkedArguments.paths.flatMap linkedTree.walk)).files ↔ _
    simp only [FileTree.discoveryOf, documentsIn_linkedTree, FileTree.mem_arrange]
    simp
  obtain ⟨_, _, _, result, after, hresult, hothers⟩ :=
    discovery_ignores_order_and_overlap hwf hscan hfiles
  obtain ⟨hagain, _⟩ := hothers _ rescans_linkedTree
  exact ⟨hwf, hscan, hfiles, rescans_linkedTree, result, after, hresult, hagain⟩

end QueryHooks
