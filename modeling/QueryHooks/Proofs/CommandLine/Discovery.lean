import QueryHooks.CommandLine.Arguments
import QueryHooks.CommandLine.Discovery

/-!
# Which documents are found, and in which order

The documents of a command are put in the order of their places, each of them once.

Main results:

- Theorem `FileTree.pairwise_arrange` and theorem `FileTree.mem_arrange`: what putting places in
  order means.
- Definition `FileTree.Finds`: some places are those of the documents of a command.
- Theorem `FileTree.finds_discover`: the files of a discovery are these.
- Theorem `FileTree.errors_discover`: its errors are those of all walks.
-/

namespace QueryHooks

/-! ## The order of places -/

namespace Place

/-- Places are compared by their first names, and behind equal ones by the rest. -/
theorem le_cons_iff {name another : String} {names others : Place} :
    le (name :: names) (another :: others) = true ↔
      name < another ∨ name = another ∧ le names others = true := by
  rw [le, Bool.or_eq_true, Bool.and_eq_true, decide_eq_true_iff, beq_iff_eq]

/-- The order of places is transitive. -/
theorem le_trans {place other last : Place} (h : le place other = true)
    (hlast : le other last = true) :
    le place last = true := by
  induction place generalizing other last with
  | nil => rfl
  | cons name names ih =>
    cases other with
    | nil => exact absurd h (by simp [le])
    | cons another others =>
      cases last with
      | nil => exact absurd hlast (by simp [le])
      | cons end' ends =>
        rw [le_cons_iff] at h hlast ⊢
        rcases h with hlt | ⟨rfl, hle⟩
        · left
          rcases hlast with hbehind | ⟨rfl, _⟩
          · exact String.lt_trans hlt hbehind
          · exact hlt
        · rcases hlast with hbehind | ⟨rfl, hbehind⟩
          · exact .inl hbehind
          · exact .inr ⟨rfl, ih hle hbehind⟩

/-- Any two places are in order, one way or the other. -/
theorem le_total (place other : Place) : le place other = true ∨ le other place = true := by
  induction place generalizing other with
  | nil => exact .inl rfl
  | cons name names ih =>
    cases other with
    | nil => exact .inr rfl
    | cons another others =>
      rw [le_cons_iff, le_cons_iff]
      by_cases hlt : name < another
      · exact .inl (.inl hlt)
      · by_cases hgt : another < name
        · exact .inr (.inl hgt)
        · obtain rfl := String.le_antisymm (String.not_lt.1 hgt) (String.not_lt.1 hlt)
          rcases ih others with hle | hle
          · exact .inl (.inr ⟨rfl, hle⟩)
          · exact .inr (.inr ⟨rfl, hle⟩)

/-- Different places are in order one way only. -/
theorem le_antisymm {place other : Place} (h : le place other = true)
    (hback : le other place = true) :
    place = other := by
  induction place generalizing other with
  | nil =>
    cases other with
    | nil => rfl
    | cons another others => exact absurd hback (by simp [le])
  | cons name names ih =>
    cases other with
    | nil => exact absurd h (by simp [le])
    | cons another others =>
      rw [le_cons_iff] at h hback
      rcases h with hlt | ⟨rfl, hle⟩
      · rcases hback with hgt | ⟨rfl, _⟩
        · exact absurd (String.lt_trans hlt hgt) (String.lt_irrefl _)
        · exact absurd hlt (String.lt_irrefl _)
      · rcases hback with hgt | ⟨_, hgt⟩
        · exact absurd hgt (String.lt_irrefl _)
        · rw [ih hle hgt]

end Place

/-! ## Repetitions -/

section Repetitions

variable {α : Type} [BEq α]

theorem eraseReps_loop (element : α) (elements reversed : List α) :
    List.eraseRepsBy.loop (· == ·) element elements reversed =
      reversed.reverse ++ List.eraseReps (element :: elements) := by
  induction elements generalizing element reversed with
  | nil => simp [List.eraseRepsBy.loop, List.eraseReps, List.eraseRepsBy]
  | cons next elements ih =>
    rw [List.eraseRepsBy.loop, List.eraseReps, List.eraseRepsBy, List.eraseRepsBy.loop]
    split
    · rw [ih, ih element []]
      rfl
    · rw [ih, ih next [element]]
      simp

/-- The first of some elements is left out if the next one is the same. -/
theorem eraseReps_cons_cons (first second : α) (elements : List α) :
    List.eraseReps (first :: second :: elements) =
      if first == second then List.eraseReps (first :: elements)
      else first :: List.eraseReps (second :: elements) := by
  have hloop (r : List α) : List.eraseReps (first :: r) =
      List.eraseRepsBy.loop (· == ·) first r [] := rfl
  rw [hloop, List.eraseRepsBy.loop]
  split
  · rename_i hsame
    rw [if_pos hsame, hloop]
  · rename_i hnot
    rw [if_neg (by simp [hnot]), eraseReps_loop]
    rfl

variable [LawfulBEq α]

/-- No element gets lost with the repetitions. -/
theorem mem_eraseReps {element : α} {elements : List α} :
    element ∈ List.eraseReps elements ↔ element ∈ elements := by
  match elements with
  | [] => rfl
  | [first] => rfl
  | first :: second :: later =>
    rw [eraseReps_cons_cons]
    split
    · rename_i hsame
      obtain rfl := eq_of_beq hsame
      rw [mem_eraseReps, List.mem_cons, List.mem_cons, List.mem_cons, ← or_assoc, or_self]
    · rw [List.mem_cons, mem_eraseReps, ← List.mem_cons]

/-- Elements in order, without the repetitions among them, are in order and distinct. -/
theorem pairwise_eraseReps {r : α → α → Prop} (hanti : ∀ x y, r x y → r y x → x = y)
    {elements : List α} (h : elements.Pairwise r) :
    (List.eraseReps elements).Pairwise fun element other => r element other ∧ element ≠ other := by
  match elements with
  | [] => exact .nil
  | [first] => exact List.pairwise_singleton _ _
  | first :: second :: later =>
    obtain ⟨hfirst, hrest⟩ := List.pairwise_cons.1 h
    rw [eraseReps_cons_cons]
    split
    · rename_i hsame
      obtain rfl := eq_of_beq hsame
      exact pairwise_eraseReps hanti hrest
    · rename_i hnot
      have hne : first ≠ second := fun heq => hnot (beq_iff_eq.2 heq)
      refine List.pairwise_cons.2 ⟨?_, pairwise_eraseReps hanti hrest⟩
      intro other hother
      rw [mem_eraseReps] at hother
      refine ⟨hfirst other hother, ?_⟩
      rintro rfl
      -- An element that comes again has only itself between.
      have hback : r second first := by
        rcases List.mem_cons.1 hother with rfl | hlater
        · exact absurd rfl hne
        · exact (List.pairwise_cons.1 hrest).1 first hlater
      exact hne (hanti first second (hfirst second List.mem_cons_self) hback)

end Repetitions

namespace FileTree

/-- Places are arranged in their order, each of them once. -/
theorem pairwise_arrange (places : List Place) :
    (arrange places).Pairwise fun place other => place.le other = true ∧ place ≠ other := by
  refine pairwise_eraseReps (fun _ _ => Place.le_antisymm) ?_
  have htotal (place other : Place) : (place.le other || other.le place) = true := by
    rw [Bool.or_eq_true]
    exact Place.le_total place other
  exact @List.pairwise_mergeSort Place Place.le (fun _ _ _ => Place.le_trans) htotal places

/-- Places have one order only. -/
theorem eq_of_ordered {places others : List Place}
    (h : places.Pairwise fun place other => place.le other = true ∧ place ≠ other)
    (hothers : others.Pairwise fun place other => place.le other = true ∧ place ≠ other)
    (hmem : ∀ place, place ∈ places ↔ place ∈ others) : places = others := by
  have hperm : places.Perm others := by
    rw [List.perm_ext_iff_of_nodup (h.imp And.right) (hothers.imp And.right)]
    exact hmem
  refine hperm.eq_of_pairwise ?_ h hothers
  intro place other _ _ hle hge
  exact Place.le_antisymm hle.1 hge.1

/-- Putting places in order loses none and adds none. -/
theorem mem_arrange {place : Place} {places : List Place} :
    place ∈ arrange places ↔ place ∈ places := by
  rw [arrange, mem_eraseReps, List.mem_mergeSort]

/-! ## Found documents -/

/-- A document with one of the extensions of a command, at or below one of its paths. -/
def HasDocument (tree : FileTree) (arguments : GenerateArguments) (place : Place) : Prop :=
  ∃ path ∈ arguments.paths, ∃ found, .ok found ∈ tree.walk path ∧
    isDocument arguments.extensions found = true ∧ found.place = place

/--
A document of a command: a file with one of its extensions, or else the file that is its only path,
if there are none of the others.
-/
def IsFound (tree : FileTree) (arguments : GenerateArguments) (place : Place) : Prop :=
  tree.HasDocument arguments place ∨
    (¬∃ other, tree.HasDocument arguments other) ∧
      ∃ path, arguments.paths = [path] ∧ tree.isFile path = true ∧ tree.resolve path = .ok place

/-- Some places are those of the documents of a command, in order and each of them once. -/
structure Finds (tree : FileTree) (arguments : GenerateArguments) (places : List Place) : Prop where
  ordered : places.Pairwise fun place other => place.le other = true ∧ place ≠ other
  mem_iff : ∀ place, place ∈ places ↔ tree.IsFound arguments place

/-- The errors of the walks from all paths of a command. -/
def scanErrors (tree : FileTree) (arguments : GenerateArguments) : List WalkError :=
  arguments.paths.flatMap fun path => errorsIn (tree.walk path)

/-- The errors of a discovery are those of the walks from all paths. -/
theorem errors_discover (tree : FileTree) (arguments : GenerateArguments) :
    (tree.discover arguments.extensions arguments.paths).errors = tree.scanErrors arguments := by
  rw [discover, errorsIn, List.filterMap_flatMap]
  rfl

/-- Something is found if a walk comes to it. -/
theorem mem_foundIn {visits : List (Except WalkError Found)} {found : Found} :
    found ∈ foundIn visits ↔ .ok found ∈ visits := by
  rw [foundIn, List.mem_filterMap]
  constructor
  · rintro ⟨visit, hvisit, hok⟩
    cases visit with
    | error error => exact absurd hok (by simp)
    | ok other =>
      obtain rfl := Option.some.inj hok
      exact hvisit
  · exact fun hvisit => ⟨.ok found, hvisit, rfl⟩

/-- The places of the documents that some walks come to. -/
def documentsIn (extensions : List String) (visits : List (Except WalkError Found)) : List Place :=
  ((foundIn visits).filter (isDocument extensions)).map Found.place

/-- The documents of some walks are the places of the files with one of the extensions. -/
theorem mem_documentsIn_iff {extensions : List String} {visits : List (Except WalkError Found)}
    {place : Place} :
    place ∈ documentsIn extensions visits ↔
      ∃ found, .ok found ∈ visits ∧ isDocument extensions found = true ∧ found.place = place := by
  simp only [documentsIn, List.mem_map, List.mem_filter, mem_foundIn, and_assoc]

/-- The documents of the walks of a command are the files with one of its extensions. -/
theorem mem_documents_iff {tree : FileTree} {arguments : GenerateArguments} {place : Place} :
    place ∈ documentsIn arguments.extensions (arguments.paths.flatMap tree.walk) ↔
      tree.HasDocument arguments place := by
  simp only [mem_documentsIn_iff, List.mem_flatMap, HasDocument]
  constructor
  · rintro ⟨found, ⟨path, hpath, hvisit⟩, hdocument, hplace⟩
    exact ⟨path, hpath, found, hvisit, hdocument, hplace⟩
  · rintro ⟨path, hpath, found, hvisit, hdocument, hplace⟩
    exact ⟨found, ⟨path, hpath, hvisit⟩, hdocument, hplace⟩

/-- There is an only file if there is one path, and this leads to a file. -/
theorem onlyFile?_eq_some_iff {tree : FileTree} {paths : List Path} {place : Place} :
    tree.onlyFile? paths = some place ↔
      ∃ path, paths = [path] ∧ tree.isFile path = true ∧ tree.resolve path = .ok place := by
  unfold onlyFile?
  split
  · rename_i path
    cases hresolve : tree.resolve path with
    | error fault => simp [hresolve, Except.toOption]
    | ok found => simp [hresolve, Except.toOption]
  · rename_i hnot
    constructor
    · exact fun h => absurd h (by simp)
    · rintro ⟨path, rfl, _⟩
      exact absurd rfl (hnot path)

/-- The files of a discovery are the documents of the command, in order. -/
theorem finds_discover (tree : FileTree) (arguments : GenerateArguments) :
    tree.Finds arguments (tree.discover arguments.extensions arguments.paths).files where
  ordered := pairwise_arrange _
  mem_iff place := by
    rw [discover, mem_arrange, List.mem_append]
    refine or_congr mem_documents_iff ?_
    rw [Option.mem_toList]
    have hempty :
        (documentsIn arguments.extensions (arguments.paths.flatMap tree.walk)).isEmpty = true ↔
        ¬∃ other, tree.HasDocument arguments other := by
      simp only [← mem_documents_iff, List.isEmpty_iff, List.eq_nil_iff_forall_not_mem, not_exists]
    split
    · rename_i hnone
      rw [onlyFile?_eq_some_iff, and_iff_right (hempty.1 hnone)]
    · rename_i hsome
      have hsome := mt hempty.2 hsome
      simp only [reduceCtorEq, hsome, false_and]

/-- The documents of a command are found in one order only. -/
theorem Finds.eq {tree : FileTree} {arguments : GenerateArguments} {places others : List Place}
    (h : tree.Finds arguments places) (hothers : tree.Finds arguments others) :
    places = others := by
  refine eq_of_ordered h.ordered hothers.ordered fun place => ?_
  rw [h.mem_iff, hothers.mem_iff]

end FileTree

end QueryHooks
