import QueryHooks.FileTree.Basic

/-!
# Writing files

Writing replaces the file that a path leads to, or makes a new one in a directory that is there
already.  At the end of a path a link is followed also if its target is missing.

Main definitions: `FileTree.destination`, `FileTree.write`.
-/

namespace QueryHooks.FileTree

/-- With an entry put in its place there is still one entry for each place. -/
theorem nodup_put (tree : FileTree) (place : Place) (entry : Entry) :
    ((tree.entries.filter (·.1 != place) ++ [(place, entry)]).map Prod.fst).Nodup := by
  rw [List.map_append, List.nodup_append]
  refine ⟨tree.distinct.sublist (List.filter_sublist.map _), by simp, ?_⟩
  simp only [List.mem_map, List.mem_filter, bne_iff_ne, List.map_cons, List.map_nil,
    List.mem_singleton]
  rintro _ ⟨other, ⟨_, hne⟩, rfl⟩ _ rfl
  exact hne

/-- Put an entry at a place, instead of what is there. -/
def put (tree : FileTree) (place : Place) (entry : Entry) : FileTree where
  entries := tree.entries.filter (·.1 != place) ++ [(place, entry)]
  workingDirectory := tree.workingDirectory
  distinct := tree.nodup_put place entry

/-- What was put at a place is there. -/
theorem lookup_put {tree : FileTree} {place : Place} {entry : Entry} (h : place ≠ []) :
    (tree.put place entry).lookup place = some entry := by
  have hnone : (tree.entries.filter (·.1 != place)).lookup place = none := by
    rw [List.lookup_eq_none_iff]
    intro other hmem
    exact bne_iff_ne.2 (bne_iff_ne.1 (List.mem_filter.1 hmem).2).symm
  simp [put, lookup, h, List.lookup_append, hnone]

/-- Nothing changes at other places. -/
theorem lookup_put_of_ne {tree : FileTree} {place other : Place} {entry : Entry}
    (h : other ≠ place) :
    (tree.put place entry).lookup other = tree.lookup other := by
  have hfilter (entries : List (Place × Entry)) :
      (entries.filter (·.1 != place)).lookup other = entries.lookup other := by
    induction entries with
    | nil => rfl
    | cons first later ih =>
      obtain ⟨here, found⟩ := first
      by_cases hplace : here = place
      · subst hplace
        simp [ih, List.lookup_cons, beq_false_of_ne h]
      · simp [hplace, List.lookup_cons, ih]
  simp [put, lookup, List.lookup_append, hfilter, List.lookup_cons, beq_false_of_ne h]

/-- The parts of a path without its last part, and that part. -/
def splitLast : List String → Option (List String × String)
  | [] => none
  | [last] => some ([], last)
  | part :: parts => (splitLast parts).map fun (front, last) => (part :: front, last)

/--
The place of the file to be written for the parts of a path from a place, where `links` more links
may be followed.  The last part has to be the name of a file or a free name, with no slash behind
it.
-/
def destinationFrom (tree : FileTree) (links : Nat) (here : Place) (parts : List String) :
    Except Fault Place := do
  let slashes := parts.reverse.takeWhile String.isEmpty
  match splitLast (parts.take (parts.length - slashes.length)) with
  | none => throw .isDirectory
  | some (front, last) =>
    let directory ← tree.resolveFrom true links here front
    match tree.lookup directory with
    | none => throw .notFound
    | some .directory =>
      if slashes ≠ [] ∨ last = "." ∨ last = ".." then throw .isDirectory
      else
        match tree.lookup (directory ++ [last]) with
        | none => return directory ++ [last]
        | some (.file _) => return directory ++ [last]
        | some .directory => throw .isDirectory
        | some (.symlink target) =>
          match links with
          | 0 => throw .tooManyLinks
          | links + 1 =>
            if target.text.isEmpty then throw .notFound
            else tree.destinationFrom links (startOf target directory) target.parts
    | some _ => throw .notDirectory

/-- The place of the file to be written for a path. -/
def destination (tree : FileTree) (path : Path) : Except Fault Place :=
  if path.text.isEmpty then .error .notFound
  else tree.destinationFrom maxLinks (startOf path tree.workingDirectory) path.parts

/-- Write a file. -/
def write (tree : FileTree) (path : Path) (content : String) : Except Fault FileTree :=
  (tree.destination path).map fun place => tree.put place (.file content.toUTF8.toList)

end QueryHooks.FileTree
