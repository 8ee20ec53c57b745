import Mathlib.Data.List.Induction
import Mathlib.Data.String.Basic
import QueryHooks.FileTree.Reading
import QueryHooks.FileTree.Walk

/-!
# Resolution of paths

A path is resolved part by part from a directory, and each link that it comes to is replaced by its
target.  In a tree whose entries lie in directories the resolution ends at a file or at a directory,
and the absolute path of such a place leads to the place itself.  The path of an entry of a
directory leads to that entry.

Main results:

- Definition `FileTree.WellFormed`: the entries of a tree have proper names and lie in directories.
- Definition `FileTree.Resolves`: the rules by which parts lead from a place to another one.
- Theorem `FileTree.resolves_iff`: resolution follows these rules.
- Theorem `FileTree.WellFormed.holds_of_find`: a path leads to a directory or to a file.
- Theorem `FileTree.WellFormed.find_join`: the path of an entry leads to that entry.
- Theorem `FileTree.WellFormed.find_path`: the path of a place leads to that place.
-/

namespace QueryHooks

/-! ## Names -/

/-- A name that an entry of a directory can have. -/
structure IsFileName (name : String) : Prop where
  ne_empty : name ≠ ""
  ne_dot : name ≠ "."
  ne_dots : name ≠ ".."
  noSlash : '/' ∉ name.toList

instance (name : String) : Decidable (IsFileName name) :=
  decidable_of_iff (name ≠ "" ∧ name ≠ "." ∧ name ≠ ".." ∧ '/' ∉ name.toList)
    ⟨fun ⟨hempty, hdot, hdots, hslash⟩ => ⟨hempty, hdot, hdots, hslash⟩,
      fun h => ⟨h.ne_empty, h.ne_dot, h.ne_dots, h.noSlash⟩⟩

/-- Whether a part of a path names an entry of a directory, and not a directory on the way. -/
def IsEntryName (part : String) : Prop :=
  part ≠ "" ∧ part ≠ "." ∧ part ≠ ".."

/-- The name of a file is the name of an entry. -/
theorem IsFileName.isEntryName {name : String} (h : IsFileName name) : IsEntryName name :=
  ⟨h.ne_empty, h.ne_dot, h.ne_dots⟩

/-- A part that leads nowhere else is the name of an entry. -/
theorem isEntryName_of_not {part : String} (hstay : ¬(part = "" ∨ part = "."))
    (hup : ¬part = "..") :
    IsEntryName part :=
  ⟨fun h => hstay (.inl h), fun h => hstay (.inr h), hup⟩

/-! ## The parts of a path -/

namespace Path

/-- A path ends with a slash if this is its last character. -/
theorem endsWith_slash_iff {path : Path} :
    path.text.endsWith "/" = true ↔ ∃ front, path.text.toList = front ++ ['/'] := by
  rw [String.endsWith_eq_endsWith_toSlice, String.Slice.endsWith_string_iff, String.copy_toSlice]
  exact ⟨fun ⟨front, h⟩ => ⟨front, h.symm⟩, fun ⟨front, h⟩ => ⟨front, h.symm⟩⟩

/-- The path of an entry has the name of the entry as its last part. -/
theorem parts_join (path : Path) {name : String} (h : '/' ∉ name.toList) :
    ∃ front, (path.parts = front ∨ path.parts = front ++ [""]) ∧
      (path.join name).parts = front ++ [name] := by
  by_cases hslash : path.text.endsWith "/" = true
  · obtain ⟨front, hfront⟩ := endsWith_slash_iff.1 hslash
    refine ⟨(Text.split '/' front).map String.ofList, .inr ?_, ?_⟩
    · rw [parts, hfront, Text.split_append, List.map_append]
      rfl
    · rw [join, if_pos hslash, parts, String.toList_append, hfront, List.append_assoc,
        List.singleton_append, Text.split_append, Text.split_of_not_mem h, List.map_append,
        List.map_singleton, String.ofList_toList]
  · refine ⟨path.parts, .inl rfl, ?_⟩
    have htext : (path.text ++ "/" ++ name).toList = path.text.toList ++ '/' :: name.toList := by
      simp
    rw [join, if_neg hslash, parts, htext, Text.split_append, Text.split_of_not_mem h,
      List.map_append, List.map_singleton, String.ofList_toList]
    rfl

/-- A path is absolute if a slash is its first character. -/
theorem isAbsolute_iff {path : Path} :
    path.isAbsolute = true ↔ ∃ rest, path.text.toList = '/' :: rest := by
  rw [isAbsolute, String.startsWith_string_iff]
  exact ⟨fun ⟨rest, h⟩ => ⟨rest, h.symm⟩, fun ⟨rest, h⟩ => ⟨rest, h.symm⟩⟩

/-- A name is joined behind the path. -/
theorem exists_text_join (path : Path) (name : String) :
    ∃ rest, (path.join name).text = path.text ++ rest := by
  rw [join]
  split
  · exact ⟨name, rfl⟩
  · exact ⟨"/" ++ name, String.append_assoc ..⟩

/-- The path of an entry begins where the path of the directory does. -/
theorem isAbsolute_join {path : Path} (hne : path.text ≠ "") (name : String) :
    (path.join name).isAbsolute = path.isAbsolute := by
  obtain ⟨rest, hrest⟩ := path.exists_text_join name
  obtain ⟨first, later, htext⟩ := List.exists_cons_of_ne_nil (mt String.toList_eq_nil_iff.1 hne)
  rw [Bool.eq_iff_iff, isAbsolute_iff, isAbsolute_iff, hrest, String.toList_append, htext]
  simp

/-- A path has at least one part. -/
theorem parts_ne_nil (path : Path) : path.parts ≠ [] := by
  simp [parts, Text.split_ne_nil]

/--
The parts of the path of a place are the names in it, behind nothing in front of the first slash.
-/
theorem parts_path {place : Place} (hne : place ≠ []) (h : ∀ name ∈ place, IsFileName name) :
    place.path.parts = "" :: place := by
  have hsplit : Text.split '/' (['/'].intercalate (place.map String.toList)) =
      place.map String.toList :=
    Text.split_intercalate (by simpa using hne)
      (List.forall_mem_map.2 fun name hname => (h name hname).noSlash)
  have htext : place.path.text.toList = '/' :: ['/'].intercalate (place.map String.toList) := by
    simp [Place.path, String.toList_intercalate]
  rw [parts, htext, Text.split, if_pos rfl, hsplit]
  simp [Function.comp_def]

end Path

/-! ## Well-formed trees -/

namespace FileTree

/-- The entries of a tree have names and lie in directories, as those of a file system do. -/
structure WellFormed (tree : FileTree) : Prop where
  isFileName : ∀ entry ∈ tree.entries, ∀ name ∈ entry.1, IsFileName name
  inDirectory : ∀ entry ∈ tree.entries, tree.lookup entry.1.dropLast = some .directory

instance (tree : FileTree) : Decidable tree.WellFormed :=
  decidable_of_iff ((∀ entry ∈ tree.entries, ∀ name ∈ entry.1, IsFileName name) ∧
      ∀ entry ∈ tree.entries, tree.lookup entry.1.dropLast = some .directory)
    ⟨fun ⟨hname, hdirectory⟩ => ⟨hname, hdirectory⟩, fun h => ⟨h.isFileName, h.inDirectory⟩⟩

variable {tree : FileTree} {place : Place} {entry : Entry}

/-- At the root there is a directory. -/
@[simp]
theorem lookup_root (tree : FileTree) : tree.lookup [] = some .directory :=
  rfl

/-- What is at a place below the root is an entry of the tree. -/
theorem mem_entries_of_lookup (h : tree.lookup place = some entry) (hne : place ≠ []) :
    (place, entry) ∈ tree.entries := by
  rw [lookup, if_neg (by simpa using hne)] at h
  obtain ⟨front, back, hentries, _⟩ := List.lookup_eq_some_iff.1 h
  simp [hentries]

/-- What is listed for a place is what is found there. -/
theorem lookup_of_mem_entries (h : (place, entry) ∈ tree.entries) (hne : place ≠ []) :
    tree.lookup place = some entry := by
  rw [lookup, if_neg (by simpa using hne)]
  obtain ⟨front, back, hentries⟩ := List.append_of_mem h
  have hdistinct := tree.distinct
  rw [hentries, List.map_append, List.nodup_append] at hdistinct
  refine List.lookup_eq_some_iff.2 ⟨front, back, hentries, ?_⟩
  intro other hother
  exact bne_iff_ne.2 (hdistinct.2.2 _ (List.mem_map_of_mem hother) place (by simp)).symm

/-- The children of a directory are found below it. -/
theorem lookup_of_mem_children {child : String × Entry} (h : child ∈ tree.children place) :
    tree.lookup (place ++ [child.1]) = some child.2 := by
  simp only [children, List.mem_filterMap] at h
  obtain ⟨⟨below, found⟩, hmem, h⟩ := h
  cases hlast : below.getLast? with
  | none => simp [hlast] at h
  | some name =>
    obtain ⟨front, rfl⟩ := List.getLast?_eq_some_iff.1 hlast
    simp only [hlast, List.dropLast_concat, Option.ite_none_right_eq_some, Option.some.injEq] at h
    obtain ⟨rfl, rfl⟩ := h
    exact lookup_of_mem_entries hmem (by simp)

namespace WellFormed

/-- Around each entry there is a directory. -/
theorem lookup_dropLast (hwf : tree.WellFormed) (h : tree.lookup place = some entry) :
    tree.lookup place.dropLast = some .directory := by
  by_cases hroot : place = []
  · subst hroot
    exact tree.lookup_root
  · exact hwf.inDirectory _ (mem_entries_of_lookup h hroot)

/-- On the way to an entry there are names of files only. -/
theorem isFileName_of_lookup (hwf : tree.WellFormed) (h : tree.lookup place = some entry) :
    ∀ name ∈ place, IsFileName name := by
  by_cases hroot : place = []
  · subst hroot
    exact fun name hname => absurd hname List.not_mem_nil
  · exact hwf.isFileName _ (mem_entries_of_lookup h hroot)

end WellFormed

/-! ## The rules of resolution -/

/-- A file or a directory is at a place, not a link. -/
structure Holds (tree : FileTree) (place : Place) (entry : Entry) : Prop where
  lookup : tree.lookup place = some entry
  notLink : ∀ target, entry ≠ .symlink target

/-- The parts of a path lead from a place to another one, where some more links may be followed. -/
inductive Resolves (tree : FileTree) : Nat → Place → List String → Place → Prop
  | arrived {links : Nat} {here : Place} : Resolves tree links here [] here
  | stay {links : Nat} {here place : Place} {part : String} {parts : List String}
    (hhere : tree.lookup here = some .directory) (hpart : part = "" ∨ part = ".")
    (hrest : Resolves tree links here parts place) : Resolves tree links here (part :: parts) place
  | up {links : Nat} {here place : Place} {parts : List String}
    (hhere : tree.lookup here = some .directory)
    (hrest : Resolves tree links here.dropLast parts place) :
    Resolves tree links here (".." :: parts) place
  | enter {links : Nat} {here place : Place} {part : String} {parts : List String} {entry : Entry}
    (hhere : tree.lookup here = some .directory) (hpart : IsEntryName part)
    (hentry : tree.Holds (here ++ [part]) entry)
    (hrest : Resolves tree links (here ++ [part]) parts place) :
    Resolves tree links here (part :: parts) place
  | follow {links : Nat} {here place : Place} {part : String} {parts : List String} {target : Path}
    (hhere : tree.lookup here = some .directory) (hpart : IsEntryName part)
    (hentry : tree.lookup (here ++ [part]) = some (.symlink target))
    (htarget : ¬target.text.isEmpty)
    (hrest : Resolves tree links (startOf target here) (target.parts ++ parts) place) :
    Resolves tree (links + 1) here (part :: parts) place

/-- Resolution follows the rules. -/
theorem resolves_iff {links : Nat} {here : Place} {parts : List String} :
    tree.resolveFrom true links here parts = .ok place ↔ tree.Resolves links here parts place := by
  constructor
  · intro h
    fun_induction resolveFrom tree true links here parts with
    | case1 links here =>
      obtain rfl := Except.ok.inj h
      exact .arrived
    | case3 links here part parts hhere hpart ih => exact .stay hhere hpart (ih h)
    | case4 links here parts hhere _ ih => exact .up hhere (ih h)
    | case6 _ _ _ parts _ _ _ _ _ hlast => exact absurd hlast (by simp)
    | case9 here part parts hhere hstay hup target hentry _ links htarget ih =>
      exact .follow hhere (isEntryName_of_not hstay hup) hentry htarget (ih h)
    | case10 links here part parts hhere hstay hup entry hlink hentry ih =>
      exact .enter hhere (isEntryName_of_not hstay hup) ⟨hentry, hlink⟩ (ih h)
    | _ => exact absurd h (by simp)
  · intro h
    induction h with
    | arrived => rw [resolveFrom]
    | stay hhere hpart _ ih => rw [resolveFrom, hhere]; simp [hpart, ih]
    | up hhere _ ih => rw [resolveFrom, hhere]; simp [ih]
    | @enter links here place part parts entry hhere hpart hentry _ ih =>
      rw [resolveFrom, hhere]
      obtain ⟨hempty, hdot, hdots⟩ := hpart
      obtain ⟨hentry, hlink⟩ := hentry
      cases entry with
      | symlink target => exact absurd rfl (hlink target)
      | file content => simpa [hempty, hdot, hdots, hentry] using ih
      | directory => simpa [hempty, hdot, hdots, hentry] using ih
    | follow hhere hpart hentry htarget _ ih =>
      rw [resolveFrom, hhere]
      obtain ⟨hempty, hdot, hdots⟩ := hpart
      simpa [hempty, hdot, hdots, hentry, htarget] using ih

/-- Parts lead on from a directory only. -/
theorem Resolves.lookup_start {links : Nat} {here : Place} {parts : List String}
    (h : tree.Resolves links here parts place) (hne : parts ≠ []) :
    tree.lookup here = some .directory := by
  cases h with
  | arrived => exact absurd rfl hne
  | stay hhere _ _ => exact hhere
  | up hhere _ => exact hhere
  | enter hhere _ _ _ => exact hhere
  | follow hhere _ _ _ _ => exact hhere

/-- What is found is what is at the place that a path leads to. -/
theorem find_of_resolve {path : Path} (h : tree.resolve path = .ok place) :
    tree.find path = (tree.lookup place).elim (.error .notFound) fun entry =>
      .ok (place, entry) := by
  simp only [find, h, bind, Except.bind]
  cases tree.lookup place with
  | none => rfl
  | some entry => rfl

/-- What it means for a path to lead somewhere. -/
theorem find_eq_ok_iff {path : Path} :
    tree.find path = .ok (place, entry) ↔
      path.text ≠ "" ∧
        tree.Resolves maxLinks (startOf path tree.workingDirectory) path.parts place ∧
        tree.lookup place = some entry := by
  rw [← resolves_iff]
  by_cases hempty : path.text = ""
  · simp [find, resolve, hempty, bind, Except.bind]
  have hresolve : tree.resolve path =
      tree.resolveFrom true maxLinks (startOf path tree.workingDirectory) path.parts := by
    rw [resolve, if_neg (by simpa using hempty)]
  rw [← hresolve]
  cases hplace : tree.resolve path with
  | error fault => simp [find, hplace, bind, Except.bind]
  | ok found =>
    rw [find_of_resolve hplace, and_iff_right hempty, Except.ok.injEq]
    constructor
    · intro h
      cases hfound : tree.lookup found with
      | none =>
        rw [hfound] at h
        exact absurd h (by simp)
      | some other =>
        rw [hfound] at h
        obtain ⟨rfl, rfl⟩ := Prod.mk.inj (Except.ok.inj h)
        exact ⟨rfl, hfound⟩
    · rintro ⟨rfl, hentry⟩
      rw [hentry]
      rfl

/-! ## Where a path leads -/

/-- A path starts in a directory. -/
theorem lookup_startOf {path : Path} (h : tree.lookup place = some .directory) :
    tree.lookup (startOf path place) = some .directory := by
  rw [startOf]
  split
  · exact tree.lookup_root
  · exact h

/-- A directory is held at its place. -/
theorem holds_directory (h : tree.lookup place = some .directory) : tree.Holds place .directory :=
  ⟨h, fun _ => by simp⟩

/-- Resolution goes from one directory to the next, and it ends at a directory or a file. -/
theorem WellFormed.exists_holds_of_resolves (hwf : tree.WellFormed) {links : Nat} {here : Place}
    {parts : List String} (h : tree.Resolves links here parts place)
    (hhere : ∃ entry, tree.Holds here entry) : ∃ entry, tree.Holds place entry := by
  induction h with
  | arrived => exact hhere
  | stay _ _ _ ih => exact ih hhere
  | up hdirectory _ ih => exact ih ⟨_, holds_directory (hwf.lookup_dropLast hdirectory)⟩
  | enter _ _ hentry _ ih => exact ih ⟨_, hentry⟩
  | follow hdirectory _ _ _ _ ih => exact ih ⟨_, holds_directory (lookup_startOf hdirectory)⟩

/-- A path leads to a directory or to a file. -/
theorem WellFormed.holds_of_find (hwf : tree.WellFormed) {path : Path}
    (h : tree.find path = .ok (place, entry)) : tree.Holds place entry := by
  obtain ⟨_, hresolves, hentry⟩ := find_eq_ok_iff.1 h
  have hstart := hresolves.lookup_start path.parts_ne_nil
  obtain ⟨other, hother⟩ := hwf.exists_holds_of_resolves hresolves ⟨_, holds_directory hstart⟩
  obtain rfl := Option.some.inj (hentry.symm.trans hother.lookup)
  exact hother

/-! ## Paths of entries -/

/-- Behind parts that lead to a directory, a name leads to what is below that directory. -/
theorem Resolves.concat {links : Nat} {here : Place} {parts : List String} {name : String}
    (h : tree.Resolves links here parts place) (hplace : tree.lookup place = some .directory)
    (hname : IsEntryName name) (hentry : tree.Holds (place ++ [name]) entry) :
    tree.Resolves links here (parts ++ [name]) (place ++ [name]) := by
  induction h with
  | arrived => exact .enter hplace hname hentry .arrived
  | stay hhere hpart _ ih => exact .stay hhere hpart (ih hplace hentry)
  | up hhere _ ih => exact .up hhere (ih hplace hentry)
  | enter hhere hpart hnext _ ih => exact .enter hhere hpart hnext (ih hplace hentry)
  | follow hhere hpart hlink htarget _ ih =>
    refine .follow hhere hpart hlink htarget ?_
    rw [List.append_eq, ← List.append_assoc]
    exact ih hplace hentry

/-- A slash at the end of a path does not change where it leads. -/
theorem Resolves.of_concat_empty {links : Nat} {here : Place} {parts : List String}
    (h : tree.Resolves links here (parts ++ [""]) place) :
    tree.Resolves links here parts place := by
  -- The induction is on all parts; the empty one at the end can only be passed by staying.
  generalize hall : parts ++ [""] = all at h
  induction h generalizing parts with
  | arrived => exact absurd hall (by simp)
  | stay hhere hpart hrest ih =>
    cases parts with
    | nil =>
      obtain ⟨_, rfl⟩ := List.cons.inj hall
      exact hrest
    | cons first parts =>
      obtain ⟨rfl, hlater⟩ := List.cons.inj hall
      exact .stay hhere hpart (ih hlater)
  | up hhere _ ih =>
    cases parts with
    | nil => exact absurd (List.cons.inj hall).1 (by decide)
    | cons first parts =>
      obtain ⟨rfl, hlater⟩ := List.cons.inj hall
      exact .up hhere (ih hlater)
  | enter hhere hpart hentry _ ih =>
    cases parts with
    | nil => exact absurd (List.cons.inj hall).1.symm hpart.1
    | cons first parts =>
      obtain ⟨rfl, hlater⟩ := List.cons.inj hall
      exact .enter hhere hpart hentry (ih hlater)
  | follow hhere hpart hentry htarget _ ih =>
    cases parts with
    | nil => exact absurd (List.cons.inj hall).1.symm hpart.1
    | cons first parts =>
      obtain ⟨rfl, hlater⟩ := List.cons.inj hall
      refine .follow hhere hpart hentry htarget (ih ?_)
      rw [List.append_assoc, ← hlater]
      rfl

/-- The path of an entry of a directory leads to that entry. -/
theorem WellFormed.find_join (hwf : tree.WellFormed) {path : Path} {name : String}
    (h : tree.find path = .ok (place, .directory)) (hentry : tree.Holds (place ++ [name]) entry) :
    tree.find (path.join name) = .ok (place ++ [name], entry) := by
  obtain ⟨hne, hresolves, hplace⟩ := find_eq_ok_iff.1 h
  have hname := hwf.isFileName_of_lookup hentry.lookup name (by simp)
  have hjoin : (path.join name).text ≠ "" := by
    obtain ⟨rest, hrest⟩ := path.exists_text_join name
    rw [hrest]
    simp [hne]
  obtain ⟨front, hfront, hparts⟩ := path.parts_join hname.noSlash
  have hfront : tree.Resolves maxLinks (startOf path tree.workingDirectory) front place := by
    rcases hfront with hfront | hfront
    · rwa [hfront] at hresolves
    · rw [hfront] at hresolves
      exact hresolves.of_concat_empty
  refine find_eq_ok_iff.2 ⟨hjoin, ?_, hentry.lookup⟩
  rw [hparts, startOf, Path.isAbsolute_join hne]
  exact hfront.concat hplace hname.isEntryName hentry

/-- The names in a place lead to it from the root. -/
theorem WellFormed.resolves_place (hwf : tree.WellFormed) {links : Nat}
    (h : tree.Holds place entry) :
    tree.Resolves links [] place place := by
  induction place using List.reverseRecOn generalizing entry with
  | nil => exact .arrived
  | append_singleton place name ih =>
    have hplace := hwf.lookup_dropLast h.lookup
    rw [List.dropLast_concat] at hplace
    have hname := hwf.isFileName_of_lookup h.lookup name (by simp)
    exact (ih (holds_directory hplace)).concat hplace hname.isEntryName h

/-- The path of a place leads to that place. -/
theorem WellFormed.find_path (hwf : tree.WellFormed) (h : tree.Holds place entry)
    (hne : place ≠ []) :
    tree.find place.path = .ok (place, entry) := by
  have habsolute : place.path.isAbsolute = true :=
    Path.isAbsolute_iff.2 ⟨("/".intercalate place).toList, by simp [Place.path]⟩
  refine find_eq_ok_iff.2 ⟨by simp [Place.path], ?_, h.lookup⟩
  rw [startOf, if_pos habsolute, Path.parts_path hne (hwf.isFileName_of_lookup h.lookup)]
  exact .stay tree.lookup_root (.inl rfl) (hwf.resolves_place h)

end FileTree

end QueryHooks
