import QueryHooks.FileTree.Basic

/-!
# Walking a file tree

Everything at and below a path, where links are followed.  A link to a directory that is being
walked already is reported and not followed, so each walk ends: between two links it only goes down,
and each link leads to a directory that is not being walked.

Main definitions: `WalkError`, `Found`, `FileTree.walk`.
-/

namespace QueryHooks

/-- Why a walk does not go on at some path. -/
inductive WalkError where
  /-- The path leads nowhere. -/
  | unresolved (path : Path) (fault : FileTree.Fault)
  /-- The path is a link to a directory that it is below of. -/
  | loop (path ancestor : Path)
  deriving DecidableEq, Repr

/-- The text of the error. -/
def WalkError.message : WalkError → String
  | unresolved path fault => "IO error for operation on " ++ path.text ++ ": " ++ fault.message
  | loop path ancestor =>
    "File system loop found: " ++ path.text ++ " points to an ancestor " ++ ancestor.text

/-- A file or a directory that a walk comes to. -/
structure Found where
  path : Path
  place : Place
  isFile : Bool
  deriving DecidableEq, Repr

namespace FileTree

/-- The places at which something is. -/
def places (tree : FileTree) : List Place :=
  [] :: tree.entries.map Prod.fst

/-- The names in a directory with what they name, in the order of the tree. -/
def children (tree : FileTree) (place : Place) : List (String × Entry) :=
  tree.entries.filterMap fun (child, entry) =>
    match child.getLast? with
    | none => none
    | some name => if child.dropLast = place then some (name, entry) else none

/-- What is in a directory has a place of the tree. -/
theorem mem_places_of_mem_children {tree : FileTree} {place : Place} {child : String × Entry}
    (h : child ∈ tree.children place) : place ++ [child.1] ∈ tree.places := by
  simp only [children, List.mem_filterMap] at h
  obtain ⟨⟨at', entry⟩, hmem, h⟩ := h
  revert h
  cases hlast : at'.getLast? with
  | none => simp
  | some name =>
    simp only [Option.ite_none_right_eq_some, Option.some.injEq, and_imp]
    rintro rfl rfl
    have : at'.dropLast ++ [name] = at' := by
      obtain ⟨front, rfl⟩ := List.getLast?_eq_some_iff.1 hlast
      simp
    simp only [this, places, List.mem_cons, List.mem_map]
    exact Or.inr ⟨_, hmem, rfl⟩

/-- Where something is, there is a place of the tree. -/
theorem mem_places_of_lookup {tree : FileTree} {place : Place} {entry : Entry}
    (h : tree.lookup place = some entry) : place ∈ tree.places := by
  unfold lookup at h
  split at h
  · simp_all [places]
  · obtain ⟨front, back, happ, _⟩ := List.lookup_eq_some_iff.1 h
    simp [places, happ]

/-- What a path leads to has a place of the tree. -/
theorem mem_places_of_find {tree : FileTree} {path : Path} {place : Place} {entry : Entry}
    (h : tree.find path = .ok (place, entry)) : place ∈ tree.places := by
  simp only [find, bind, Except.bind] at h
  split at h
  · simp at h
  · split at h
    · simp [throw, throwThe, MonadExceptOf.throw] at h
    · simp only [pure, Except.pure, Except.ok.injEq, Prod.mk.injEq] at h
      obtain ⟨rfl, rfl⟩ := h
      exact mem_places_of_lookup ‹_›

/-! ## The end of a walk -/

/-- The number of places that are not among some. -/
def unseen (tree : FileTree) (seen : List Place) : Nat :=
  tree.places.countP fun place => !seen.contains place

/-- A number that no place of the tree is deeper than. -/
def depthBound (tree : FileTree) : Nat :=
  tree.places.foldr (fun place bound => place.length + bound) 0

/-- No place lies deeper than the bound. -/
theorem length_le_depthBound {tree : FileTree} {place : Place} (h : place ∈ tree.places) :
    place.length ≤ tree.depthBound := by
  unfold depthBound
  generalize tree.places = places at h
  induction places with
  | nil => simp at h
  | cons other places ih =>
    rw [List.foldr_cons]
    rcases List.mem_cons.1 h with rfl | h
    · exact Nat.le_add_right _ _
    · exact Nat.le_trans (ih h) (Nat.le_add_left _ _)

/-- To have seen one place more leaves no more places to be seen. -/
theorem unseen_cons_le (tree : FileTree) (place : Place) (seen : List Place) :
    tree.unseen (place :: seen) ≤ tree.unseen seen := by
  refine List.countP_mono_left fun other _ => ?_
  simp

/-- A place that was not seen before makes the number of unseen places smaller. -/
theorem unseen_cons_lt {tree : FileTree} {place : Place} {seen : List Place}
    (hmem : place ∈ tree.places) (hnot : place ∉ seen) :
    tree.unseen (place :: seen) < tree.unseen seen := by
  obtain ⟨front, back, h⟩ := List.append_of_mem hmem
  have hfront : front.countP (fun other => !(place :: seen).contains other) ≤
      front.countP fun other => !seen.contains other :=
    List.countP_mono_left fun other _ => by simp
  have hback : back.countP (fun other => !(place :: seen).contains other) ≤
      back.countP fun other => !seen.contains other :=
    List.countP_mono_left fun other _ => by simp
  simp only [unseen, h, List.countP_append, List.countP_cons]
  simp [hnot]
  simp at hfront hback
  omega

/-! ## Walks -/

/-- A directory that is being walked, and the path on which it was reached. -/
abbrev Ancestor := Path × Place

/--
What a walk comes to at and below a directory, which was reached through some others, the innermost
of them first.
-/
def walkDirectory (tree : FileTree) (ancestors : List Ancestor) (path : Path) (place : Place) :
    List (Except WalkError Found) :=
  let ancestors' := (path, place) :: ancestors
  .ok ⟨path, place, false⟩ :: (tree.children place).attach.flatMap fun ⟨child, _hchild⟩ =>
    let childPath := path.join child.1
    match child.2 with
    | .file _ => [.ok ⟨childPath, place ++ [child.1], true⟩]
    | .directory => walkDirectory tree ancestors' childPath (place ++ [child.1])
    | .symlink _ =>
      match _h : tree.find childPath with
      | .error fault => [.error (.unresolved childPath fault)]
      | .ok (target, .directory) =>
        match _hfind : ancestors'.find? (·.2 == target) with
        | some ancestor => [.error (.loop childPath ancestor.1)]
        | none => walkDirectory tree ancestors' childPath target
      | .ok (target, _) => [.ok ⟨childPath, target, true⟩]
termination_by (tree.unseen (place :: ancestors.map Prod.snd), tree.depthBound - place.length)
decreasing_by
  · have hmem := mem_places_of_mem_children _hchild
    have hdepth := length_le_depthBound hmem
    have hle := tree.unseen_cons_le (place ++ [child.1]) (place :: ancestors.map Prod.snd)
    rcases Nat.lt_or_eq_of_le hle with hlt | heq
    · exact Prod.Lex.left _ _ hlt
    · simp only [List.map_cons, heq]
      refine Prod.Lex.right _ ?_
      simp only [List.length_append, List.length_singleton] at hdepth ⊢
      omega
  · refine Prod.Lex.left _ _ (unseen_cons_lt (mem_places_of_find ‹_›) ?_)
    simp only [List.find?_eq_none, beq_iff_eq] at _hfind
    intro hmem
    have hmem : target ∈ ancestors'.map Prod.snd := hmem
    obtain ⟨ancestor, hancestor, hplace⟩ := List.mem_map.1 hmem
    exact _hfind ancestor hancestor hplace

/-- What a walk comes to that begins at a path. -/
def walk (tree : FileTree) (path : Path) : List (Except WalkError Found) :=
  match tree.find path with
  | .error fault => [.error (.unresolved path fault)]
  | .ok (place, .directory) => tree.walkDirectory [] path place
  | .ok (place, _) => [.ok ⟨path, place, true⟩]

end FileTree

end QueryHooks
