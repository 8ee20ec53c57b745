import Mathlib.Data.List.Perm.Basic
import QueryHooks.CommandLine.Discovery
import QueryHooks.Proofs.FileTree.Resolution

/-!
# Walks of a file tree

What a walk does at an entry of a directory depends on the directories that are being walked only
where a link leads back to one of them, and then it is an error.  So a walk without errors comes to
everything that a walk from one of its own paths comes to.  The order in which the entries of a
directory are listed changes the order of what a walk comes to, and nothing else.

Main results:

- Definition `FileTree.stepAt`: what a walk does at an entry of a directory.
- Theorem `FileTree.walkDirectory_eq`: a walk does this at all entries, one after the other.
- Theorem `FileTree.WellFormed.isAt_of_mem_walk`: what a walk comes to is where its path leads.
- Theorem `FileTree.WellFormed.walk_subset_of_mem_walk`: walks from what a walk comes to add
  nothing.
- Definition `FileTree.Walks`: walks that list the entries of each directory in any order.
- Theorem `FileTree.Walks.perm`: all these walks come to the same.
-/

namespace QueryHooks

/-- Something that a walk comes to, or an error on its way. -/
abbrev Visit := Except WalkError Found

namespace FileTree

variable {tree : FileTree}

/-! ## Steps -/

/-- What a walk does at an entry of a directory. -/
inductive WalkStep where
  | note (visit : Visit)
  | descend (path : Path) (place : Place)

/-- What a walk does at an entry of a directory, where some directories are being walked. -/
def stepAt (tree : FileTree) (ancestors : List Ancestor) (path : Path) (place : Place)
    (child : String × Entry) : WalkStep :=
  match child.2 with
  | .file _ => .note (.ok ⟨path.join child.1, place ++ [child.1], true⟩)
  | .directory => .descend (path.join child.1) (place ++ [child.1])
  | .symlink _ =>
    match tree.find (path.join child.1) with
    | .error fault => .note (.error (.unresolved (path.join child.1) fault))
    | .ok (target, .directory) =>
      match ancestors.find? (·.2 == target) with
      | some ancestor => .note (.error (.loop (path.join child.1) ancestor.1))
      | none => .descend (path.join child.1) target
    | .ok (target, _) => .note (.ok ⟨path.join child.1, target, true⟩)

/-- What comes of a step. -/
def visitsOf (tree : FileTree) (ancestors : List Ancestor) : WalkStep → List Visit
  | .note visit => [visit]
  | .descend path place => tree.walkDirectory ancestors path place

/-- A walk comes to the directory, and then it does a step at each entry. -/
theorem walkDirectory_eq (tree : FileTree) (ancestors : List Ancestor) (path : Path)
    (place : Place) :
    tree.walkDirectory ancestors path place =
      .ok ⟨path, place, false⟩ :: (tree.children place).flatMap fun child =>
        tree.visitsOf ((path, place) :: ancestors)
          (tree.stepAt ((path, place) :: ancestors) path place child) := by
  rw [walkDirectory]
  refine congrArg _ ?_
  rw [List.flatMap_subtype (g := fun child => tree.visitsOf ((path, place) :: ancestors)
    (tree.stepAt ((path, place) :: ancestors) path place child)) ?_, List.unattach_attach]
  intro child _
  obtain ⟨name, entry⟩ := child
  cases entry with
  | file content => rfl
  | directory => rfl
  | symlink target =>
    simp only [stepAt]
    cases hfind : tree.find (path.join name) with
    | error fault => rfl
    | ok found =>
      obtain ⟨target, entry⟩ := found
      cases entry with
      | file content => rfl
      | symlink other => rfl
      | directory =>
        dsimp only
        cases List.find? (fun x => x.2 == target) ((path, place) :: ancestors) with
        | none => rfl
        | some ancestor => rfl

/-- A property of walks that each of them has if those have it that it descends to. -/
theorem walkDirectory_induction (tree : FileTree) {motive : List Ancestor → Path → Place → Prop}
    (step : ∀ ancestors path place,
      (∀ child ∈ tree.children place, ∀ path' place',
        tree.stepAt ((path, place) :: ancestors) path place child = .descend path' place' →
          motive ((path, place) :: ancestors) path' place') →
      motive ancestors path place)
    (ancestors : List Ancestor) (path : Path) (place : Place) : motive ancestors path place := by
  induction ancestors, path, place using walkDirectory.induct tree with
  | case1 ancestors path place _ ih2 ih1 =>
    refine step ancestors path place fun child hchild path' place' hstep => ?_
    obtain ⟨name, entry⟩ := child
    cases entry with
    | file content => exact absurd hstep (by simp [stepAt])
    | directory =>
      obtain ⟨rfl, rfl⟩ := WalkStep.descend.inj hstep
      exact ih2 _ hchild
    | symlink target =>
      simp only [stepAt] at hstep
      split at hstep
      case h_1 => exact absurd hstep (by simp)
      case h_2 hfind =>
        split at hstep
        case h_1 => exact absurd hstep (by simp)
        case h_2 hnone =>
          obtain ⟨rfl, rfl⟩ := WalkStep.descend.inj hstep
          exact ih1 (name, .symlink target) _ hfind hnone
      case h_3 => exact absurd hstep (by simp)

/-! ## Walks without errors -/

/-- A walk has no errors. -/
def IsClean (visits : List Visit) : Prop :=
  ∀ error, .error error ∉ visits

/-- Fewer visits have no more errors. -/
theorem IsClean.of_subset {visits others : List Visit} (h : IsClean others)
    (hsub : visits ⊆ others) :
    IsClean visits :=
  fun error hmem => h error (hsub hmem)

/-- Visits without errors are clean. -/
theorem errorsIn_eq_nil_iff {visits : List Visit} : errorsIn visits = [] ↔ IsClean visits := by
  rw [errorsIn, List.filterMap_eq_nil_iff]
  constructor
  · exact fun h error hmem => absurd (h _ hmem) (by simp)
  · intro h visit hvisit
    cases visit with
    | error error => exact absurd hvisit (h error)
    | ok found => rfl

/-- What comes of a child is part of the walk of its directory. -/
theorem visitsOf_subset_walkDirectory (ancestors : List Ancestor) (path : Path) {place : Place}
    {child : String × Entry} (hchild : child ∈ tree.children place) :
    tree.visitsOf ((path, place) :: ancestors)
      (tree.stepAt ((path, place) :: ancestors) path place child) ⊆
      tree.walkDirectory ancestors path place := by
  intro visit hvisit
  rw [walkDirectory_eq]
  exact List.mem_cons_of_mem _ (List.mem_flatMap.2 ⟨child, hchild, hvisit⟩)

/-- Which directories are being walked matters only where it leads to an error. -/
theorem stepAt_of_subset {ancestors fewer : List Ancestor} (hsub : fewer ⊆ ancestors) {path : Path}
    {place : Place} {child : String × Entry}
    (hclean : ∀ error, tree.stepAt ancestors path place child ≠ .note (.error error)) :
    tree.stepAt fewer path place child = tree.stepAt ancestors path place child := by
  obtain ⟨name, entry⟩ := child
  cases entry with
  | file content => rfl
  | directory => rfl
  | symlink target =>
    simp only [stepAt] at hclean ⊢
    cases hfind : tree.find (path.join name) with
    | error fault => rfl
    | ok found =>
      obtain ⟨target, entry⟩ := found
      cases entry with
      | file content => rfl
      | symlink other => rfl
      | directory =>
        simp only [hfind] at hclean
        cases hloop : ancestors.find? (·.2 == target) with
        | some ancestor =>
          -- A link back to a directory that is being walked is an error, which there is none of.
          exact absurd rfl (hloop ▸ hclean (.loop (path.join name) ancestor.1))
        | none =>
          have hfewer : fewer.find? (·.2 == target) = none := by
            rw [List.find?_eq_none] at hloop ⊢
            exact fun ancestor hmem => hloop ancestor (hsub hmem)
          simp only [hloop, hfewer]

/-- A walk without errors comes to the same where fewer directories are being walked. -/
theorem walkDirectory_of_subset {ancestors fewer : List Ancestor} {path : Path} {place : Place}
    (hclean : IsClean (tree.walkDirectory ancestors path place)) (hsub : fewer ⊆ ancestors) :
    tree.walkDirectory fewer path place = tree.walkDirectory ancestors path place := by
  -- Both walks grow their ancestors alike on the way down, so the inclusion is kept.
  induction ancestors, path, place using walkDirectory_induction tree generalizing fewer with
  | step ancestors path place ih =>
    rw [walkDirectory_eq, walkDirectory_eq]
    refine congrArg _ (List.flatMap_congr fun child hchild => ?_)
    have hcleanChild := hclean.of_subset (visitsOf_subset_walkDirectory ancestors path hchild)
    have hsub := List.cons_subset_cons (path, place) hsub
    rw [stepAt_of_subset hsub]
    · cases hstep : tree.stepAt ((path, place) :: ancestors) path place child with
      | note visit => rfl
      | descend path' place' =>
        rw [hstep] at hcleanChild
        exact ih child hchild path' place' hstep hcleanChild hsub
    · intro error hstep
      rw [hstep] at hcleanChild
      exact hcleanChild error (List.mem_singleton_self _)

/-! ## What a walk comes to -/

/-- Something found is what its path leads to. -/
def IsAt (tree : FileTree) (found : Found) : Prop :=
  ∃ entry, tree.find found.path = .ok (found.place, entry) ∧
    (found.isFile = true ↔ entry ≠ .directory)

/-- A file that is found is a file of the tree. -/
theorem WellFormed.exists_holds_of_isAt (hwf : tree.WellFormed) {found : Found}
    (h : tree.IsAt found)
    (hfile : found.isFile = true) : ∃ content, tree.Holds found.place (.file content) := by
  obtain ⟨entry, hfind, hiff⟩ := h
  have hholds := hwf.holds_of_find hfind
  cases entry with
  | file content => exact ⟨content, hholds⟩
  | directory => exact absurd rfl (hiff.1 hfile)
  | symlink target => exact absurd rfl (hholds.notLink target)

/-- A walk from a file comes to the file only. -/
theorem walk_of_isAt {found : Found} (h : tree.IsAt found) (hfile : found.isFile = true) :
    tree.walk found.path = [.ok found] := by
  obtain ⟨path, place, isFile⟩ := found
  obtain ⟨entry, hfind, hiff⟩ := h
  obtain rfl : isFile = true := hfile
  simp only [walk, hfind]
  cases entry with
  | file content => rfl
  | directory => exact absurd rfl (hiff.1 rfl)
  | symlink target => rfl

/-- A step in a directory notes a file or an error, or it descends to a directory. -/
theorem WellFormed.stepAt_cases (hwf : tree.WellFormed) (ancestors : List Ancestor) {path : Path}
    {place : Place} (hplace : tree.find path = .ok (place, .directory)) {child : String × Entry}
    (hchild : child ∈ tree.children place) :
    (∃ found, tree.stepAt ancestors path place child = .note (.ok found) ∧ found.isFile = true ∧
        tree.IsAt found) ∨
      (∃ error, tree.stepAt ancestors path place child = .note (.error error)) ∨
      ∃ path' place', tree.stepAt ancestors path place child = .descend path' place' ∧
        tree.find path' = .ok (place', .directory) := by
  have hentry := lookup_of_mem_children hchild
  obtain ⟨name, entry⟩ := child
  cases entry with
  | file content =>
    have hfind := hwf.find_join hplace ⟨hentry, fun _ => by simp⟩
    exact .inl ⟨_, rfl, rfl, _, hfind, by simp⟩
  | directory => exact .inr (.inr ⟨_, _, rfl, hwf.find_join hplace (holds_directory hentry)⟩)
  | symlink target =>
    simp only [stepAt]
    cases hfind : tree.find (path.join name) with
    | error fault => exact .inr (.inl ⟨_, rfl⟩)
    | ok found =>
      obtain ⟨target, entry⟩ := found
      cases entry with
      | file content => exact .inl ⟨_, rfl, rfl, _, hfind, by simp⟩
      | symlink other => exact .inl ⟨_, rfl, rfl, _, hfind, by simp⟩
      | directory =>
        dsimp only
        cases ancestors.find? (·.2 == target) with
        | some ancestor => exact .inr (.inl ⟨_, rfl⟩)
        | none => exact .inr (.inr ⟨_, _, rfl, hfind⟩)

/-- What the walk of a directory comes to is where it says. -/
theorem WellFormed.isAt_of_mem_walkDirectory (hwf : tree.WellFormed) {ancestors : List Ancestor}
    {path : Path} {place : Place} (hplace : tree.find path = .ok (place, .directory))
    {found : Found} (h : .ok found ∈ tree.walkDirectory ancestors path place) :
    tree.IsAt found := by
  induction ancestors, path, place using walkDirectory_induction tree with
  | step ancestors path place ih =>
    rw [walkDirectory_eq, List.mem_cons, List.mem_flatMap] at h
    rcases h with h | ⟨child, hchild, h⟩
    · obtain rfl := Except.ok.inj h
      exact ⟨_, hplace, by simp⟩
    · rcases hwf.stepAt_cases ((path, place) :: ancestors) hplace hchild with
        ⟨other, hstep, _, hother⟩ | ⟨error, hstep⟩ | ⟨path', place', hstep, hplace'⟩
      · rw [hstep] at h
        obtain rfl := Except.ok.inj (List.mem_singleton.1 h)
        exact hother
      · rw [hstep] at h
        exact absurd (List.mem_singleton.1 h) (by simp)
      · rw [hstep] at h
        exact ih child hchild path' place' hstep hplace' h

/-- What a walk comes to is where its path leads. -/
theorem WellFormed.isAt_of_mem_walk (hwf : tree.WellFormed) {path : Path} {found : Found}
    (h : .ok found ∈ tree.walk path) : tree.IsAt found := by
  rw [walk] at h
  split at h
  case h_1 => exact absurd (List.mem_singleton.1 h) (by simp)
  case h_2 hfind => exact hwf.isAt_of_mem_walkDirectory hfind h
  case h_3 place entry hnot hfind =>
    obtain rfl := Except.ok.inj (List.mem_singleton.1 h)
    exact ⟨entry, hfind, iff_of_true rfl hnot⟩

/-- A walk from what the clean walk of a directory comes to comes to nothing new. -/
theorem WellFormed.walk_subset_of_mem_walkDirectory (hwf : tree.WellFormed)
    {ancestors : List Ancestor} {path : Path} {place : Place}
    (hplace : tree.find path = .ok (place, .directory))
    (hclean : IsClean (tree.walkDirectory ancestors path place)) {found : Found}
    (h : .ok found ∈ tree.walkDirectory ancestors path place) :
    tree.walk found.path ⊆ tree.walkDirectory ancestors path place := by
  induction ancestors, path, place using walkDirectory_induction tree with
  | step ancestors path place ih =>
    have hmem := h
    rw [walkDirectory_eq, List.mem_cons, List.mem_flatMap] at hmem
    rcases hmem with hmem | ⟨child, hchild, hmem⟩
    · -- The walk from the directory itself has no other directories that are being walked.
      obtain rfl := Except.ok.inj hmem
      simp only [walk, hplace]
      rw [walkDirectory_of_subset hclean (List.nil_subset _)]
      exact List.Subset.refl _
    · have hchildren := visitsOf_subset_walkDirectory ancestors path hchild
      refine List.Subset.trans ?_ hchildren
      have hclean := hclean.of_subset hchildren
      rcases hwf.stepAt_cases ((path, place) :: ancestors) hplace hchild with
        ⟨other, hstep, hfile, hother⟩ | ⟨error, hstep⟩ | ⟨path', place', hstep, hplace'⟩
      · rw [hstep] at hmem ⊢
        obtain rfl := Except.ok.inj (List.mem_singleton.1 hmem)
        rw [walk_of_isAt hother hfile]
        exact List.Subset.refl _
      · rw [hstep] at hmem
        exact absurd (List.mem_singleton.1 hmem) (by simp)
      · rw [hstep] at hmem hclean ⊢
        exact ih child hchild path' place' hstep hplace' hclean hmem

/-- A walk without errors comes to everything that a walk from one of its own paths comes to. -/
theorem WellFormed.walk_subset_of_mem_walk (hwf : tree.WellFormed) {path : Path}
    (hclean : IsClean (tree.walk path)) {found : Found} (h : .ok found ∈ tree.walk path) :
    tree.walk found.path ⊆ tree.walk path := by
  cases hfind : tree.find path with
  | error fault =>
    simp only [walk, hfind] at h
    exact absurd (List.mem_singleton.1 h) (by simp)
  | ok target =>
    obtain ⟨place, entry⟩ := target
    by_cases hdirectory : entry = .directory
    · subst hdirectory
      have hwalk : tree.walk path = tree.walkDirectory [] path place := by
        simp only [walk, hfind]
      rw [hwalk] at h hclean ⊢
      exact hwf.walk_subset_of_mem_walkDirectory hfind hclean h
    · have hat : tree.IsAt ⟨path, place, true⟩ := ⟨entry, hfind, iff_of_true rfl hdirectory⟩
      rw [walk_of_isAt hat rfl] at h
      obtain rfl := Except.ok.inj (List.mem_singleton.1 h)
      exact List.Subset.refl _

/-! ## Other orders -/

/--
A walk at and below a directory that lists the entries of each directory in any order.  The names in
a directory are distinct, so what a walk comes to at its entries is a function of these.
-/
inductive WalksDirectory (tree : FileTree) : List Ancestor → Path → Place → List Visit → Prop
  | intro {ancestors : List Ancestor} {path : Path} {place : Place} {order : List (String × Entry)}
    {visits : String × Entry → List Visit} (horder : order.Perm (tree.children place))
    (hnote : ∀ child ∈ order, ∀ visit,
      tree.stepAt ((path, place) :: ancestors) path place child = .note visit →
        visits child = [visit])
    (hdescend : ∀ child ∈ order, ∀ path' place',
      tree.stepAt ((path, place) :: ancestors) path place child = .descend path' place' →
        WalksDirectory tree ((path, place) :: ancestors) path' place' (visits child)) :
    WalksDirectory tree ancestors path place (.ok ⟨path, place, false⟩ :: order.flatMap visits)

/-- A walk from a path that lists the entries of each directory in any order. -/
inductive Walks (tree : FileTree) (path : Path) : List Visit → Prop
  | unresolved {fault : Fault} (h : tree.find path = .error fault) :
    Walks tree path [.error (.unresolved path fault)]
  | directory {place : Place} {visits : List Visit} (h : tree.find path = .ok (place, .directory))
    (hwalk : tree.WalksDirectory [] path place visits) : Walks tree path visits
  | file {place : Place} {entry : Entry} (h : tree.find path = .ok (place, entry))
    (hfile : entry ≠ .directory) : Walks tree path [.ok ⟨path, place, true⟩]

/-- Walks from some paths, one after the other. -/
inductive WalksAll (tree : FileTree) : List Path → List Visit → Prop
  | nil : WalksAll tree [] []
  | cons {path : Path} {paths : List Path} {visits later : List Visit}
    (hfirst : tree.Walks path visits)
    (hlater : WalksAll tree paths later) : WalksAll tree (path :: paths) (visits ++ later)

/-- Walks at and below a directory come to the same in any order. -/
theorem WalksDirectory.perm {ancestors : List Ancestor} {path : Path} {place : Place}
    {visits : List Visit} (h : tree.WalksDirectory ancestors path place visits) :
    visits.Perm (tree.walkDirectory ancestors path place) := by
  induction h with
  | @intro ancestors path place order visits horder hnote _ ih =>
    rw [walkDirectory_eq]
    refine List.Perm.cons _ (.trans (List.Perm.flatMap_left _ fun child hchild => ?_)
      (List.Perm.flatMap_right _ horder))
    cases hstep : tree.stepAt ((path, place) :: ancestors) path place child with
    | note visit => exact .of_eq (hnote child hchild visit hstep)
    | descend path' place' => exact ih child hchild path' place' hstep

/-- The walk that lists entries in the order of the tree is one of these. -/
theorem walksDirectory_walkDirectory (tree : FileTree) (ancestors : List Ancestor) (path : Path)
    (place : Place) : tree.WalksDirectory ancestors path place
    (tree.walkDirectory ancestors path place) := by
  induction ancestors, path, place using walkDirectory_induction tree with
  | step ancestors path place ih =>
    rw [walkDirectory_eq]
    refine .intro (.refl _) ?_ ?_
    · intro child _ visit hstep
      rw [hstep]
      rfl
    · intro child hchild path' place' hstep
      rw [hstep]
      exact ih child hchild path' place' hstep

/-- Walks that list entries in any order come to the same. -/
theorem Walks.perm {path : Path} {visits : List Visit} (h : tree.Walks path visits) :
    visits.Perm (tree.walk path) := by
  cases h with
  | unresolved h => simp only [walk, h, List.Perm.refl]
  | directory h hwalk =>
    simp only [walk, h]
    exact hwalk.perm
  | @file place entry h hfile =>
    simp only [walk, h]
    cases entry with
    | directory => exact absurd rfl hfile
    | file content => exact .refl _
    | symlink target => exact .refl _

/-- The walk of the tree lists entries in some order. -/
theorem walks_walk (tree : FileTree) (path : Path) : tree.Walks path (tree.walk path) := by
  rw [walk]
  split
  case h_1 hfind => exact .unresolved hfind
  case h_2 hfind => exact .directory hfind (tree.walksDirectory_walkDirectory _ _ _)
  case h_3 place entry hnot hfind => exact .file hfind hnot

/-- So do the walks from several paths. -/
theorem WalksAll.perm {paths : List Path} {visits : List Visit} (h : tree.WalksAll paths visits) :
    visits.Perm (paths.flatMap tree.walk) := by
  induction h with
  | nil => exact .refl _
  | cons hfirst _ ih => exact hfirst.perm.append ih

/-- The walks of the tree from several paths list entries in some order. -/
theorem walksAll_flatMap (tree : FileTree) (paths : List Path) :
    tree.WalksAll paths (paths.flatMap tree.walk) := by
  induction paths with
  | nil => exact .nil
  | cons path paths ih => exact .cons (tree.walks_walk path) ih

end FileTree

end QueryHooks
