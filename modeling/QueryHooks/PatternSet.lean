import QueryHooks.Glob.Matching
import QueryHooks.Glob.Parser
import QueryHooks.Message

/-!
# Sets of patterns

The value of a pattern option is a list of globs; a name is in the set when one of them matches it.
Empty patterns are passed over.  The patterns are first read one after the other, and then the set
as a whole is checked for patterns that nest too deep.

Main definitions: `PatternSet`, `PatternSet.ofList`, `PatternSet.isMatch`.
-/

namespace QueryHooks

/-- A list of patterns to match names with; each is what its text is read as. -/
structure PatternSet where
  globs : List Glob
  parsed : ∀ glob ∈ globs, Glob.parse glob.source = .ok glob
  deriving Repr

namespace PatternSet

/-- The set without patterns. -/
instance : EmptyCollection PatternSet where
  emptyCollection := ⟨[], fun _ h => absurd h List.not_mem_nil⟩

/-- Why a list of texts makes no set. -/
inductive Error where
  /-- One of the texts is not a pattern. -/
  | invalid (pattern : String) (fault : Glob.Fault)
  /-- One of the patterns nests too deep; it is not recorded which. -/
  | tooDeep (patterns : List String)
  deriving DecidableEq, Repr

namespace Error

/-- The text that the error is about: one pattern, or all of them separated by commas. -/
def pattern : Error → String
  | invalid pattern _ => pattern
  | tooDeep patterns => ", ".intercalate patterns

/-- What is wrong with the pattern; what is said of one that nests too deep is left open. -/
def cause : Error → Message
  | invalid pattern fault =>
    .ofText ("error parsing glob '" ++ pattern ++ "': " ++ fault.message)
  | tooDeep _ => .omitted .regexFault

/-- The text of the error. -/
def message (error : Error) : Message :=
  .ofText ("Invalid glob pattern `" ++ error.pattern ++ "`: ") ++ error.cause

end Error

/-- The texts of the patterns, in the order in which they were given. -/
def patterns (set : PatternSet) : List String :=
  set.globs.map Glob.source

/-- Whether there are no patterns. -/
def isEmpty (set : PatternSet) : Bool :=
  set.globs.isEmpty

/-- Whether one of the patterns matches a name. -/
def isMatch (set : PatternSet) (name : String) : Bool :=
  set.globs.any (·.isMatch name)

/-- Read a list of patterns up to the first that is invalid, passing over empty texts. -/
def readAll : List String → Except Error (List Glob)
  | [] => .ok []
  | text :: texts =>
    if text.isEmpty then readAll texts
    else
      match Glob.parse text with
      | .error fault => .error (.invalid text fault)
      | .ok glob => (readAll texts).map (glob :: ·)

/-- Patterns that were read are what their texts stand for. -/
theorem parsed_of_readAll {texts : List String} {globs : List Glob}
    (h : readAll texts = .ok globs) :
    ∀ glob ∈ globs, Glob.parse glob.source = .ok glob := by
  induction texts generalizing globs with
  | nil => simp_all [readAll]
  | cons text texts ih =>
    unfold readAll at h
    split at h
    · exact ih h
    · split at h
      · simp at h
      · rename_i first hfirst
        cases hrest : readAll texts with
        | error error => simp [hrest, Except.map] at h
        | ok rest =>
          simp only [hrest, Except.map, Except.ok.injEq] at h
          subst h
          intro glob hmem
          rcases List.mem_cons.1 hmem with rfl | hmem
          · rw [Glob.source_of_parse hfirst, hfirst]
          · exact ih hrest glob hmem

/-- The set of the patterns of a list. -/
def ofList (texts : List String) : Except Error PatternSet :=
  match h : readAll texts with
  | .error error => .error error
  | .ok globs =>
    if globs.any (Glob.maxDepth < ·.depth) then .error (.tooDeep (globs.map Glob.source))
    else .ok ⟨globs, parsed_of_readAll h⟩

/-- Sets are compared by the texts of their patterns, from which all else follows. -/
instance : BEq PatternSet where
  beq set other := set.patterns == other.patterns

/-- Sets with the same texts are the same, since each text is read in one way only. -/
theorem eq_of_patterns_eq {set other : PatternSet} (h : set.patterns = other.patterns) :
    set = other := by
  obtain ⟨globs, hglobs⟩ := set
  obtain ⟨others, hothers⟩ := other
  congr
  simp only [patterns] at h
  induction globs generalizing others with
  | nil => exact (List.map_eq_nil_iff.1 h.symm).symm
  | cons glob globs ih =>
    cases others with
    | nil => simp at h
    | cons other others =>
      simp only [List.map_cons, List.cons.injEq] at h
      have hglob := hglobs glob List.mem_cons_self
      rw [h.1, hothers other List.mem_cons_self] at hglob
      rw [Except.ok.inj hglob, ih (fun g hg => hglobs g (List.mem_cons_of_mem _ hg)) others
        (fun g hg => hothers g (List.mem_cons_of_mem _ hg)) h.2]

instance : LawfulBEq PatternSet where
  eq_of_beq h := eq_of_patterns_eq (eq_of_beq h)
  rfl := beq_self_eq_true (α := List String) _

/-- A set is empty if it keeps no pattern. -/
@[simp]
theorem isEmpty_iff {set : PatternSet} : set.isEmpty ↔ set.patterns = [] := by
  simp [isEmpty, patterns]

/-- Without patterns nothing matches. -/
theorem isMatch_of_isEmpty {set : PatternSet} (h : set.isEmpty = true) (name : String) :
    set.isMatch name = false := by
  rw [isMatch, List.isEmpty_iff.1 h, List.any_nil]

end PatternSet

end QueryHooks
