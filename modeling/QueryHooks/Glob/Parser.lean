import QueryHooks.Glob.Basic

/-!
# Reading of globs

A pattern is read from left to right.  The groups that are open are kept on a stack, and the first
mistake ends the reading; a group that is never closed is found at the end.

Main definitions: `Glob.Fault`, `Glob.parse`.
-/

namespace QueryHooks.Glob

/-- Why a text is not a pattern. -/
inductive Fault where
  | unclosedClass
  | invalidRange (low high : Char)
  | unopenedGroup
  | unclosedGroup
  | danglingEscape
  deriving DecidableEq, Repr

/-- The text of a fault. -/
def Fault.message : Fault → String
  | unclosedClass => "unclosed character class; missing ']'"
  | invalidRange low high =>
    "invalid range; '" ++ String.singleton low ++ "' > '" ++ String.singleton high ++ "'"
  | unopenedGroup =>
    "unopened alternate group; missing '\x7b' (maybe escape '\x7d' with '[\x7d]'?)"
  | unclosedGroup =>
    "unclosed alternate group; missing '\x7d' (maybe escape '\x7b' with '[\x7b]'?)"
  | danglingEscape => "dangling '\\'"

/-! ## Classes -/

/-- Let the last range of a class, the first of the list, end at `high`. -/
def endRange (high : Char) : List (Char × Char) → Except Fault (List (Char × Char))
  | [] => .ok []
  | (low, _) :: ranges => if high < low then .error (.invalidRange low high)
    else .ok ((low, high) :: ranges)

/--
The ranges of a class, and the text behind its closing bracket.  The ranges read so far come last
first.  The first character of a class is a member whatever it is, and `inRange` says that a hyphen
was read which may begin the second half of a range.
-/
def readClass (first inRange : Bool) (ranges : List (Char × Char)) :
    List Char → Except Fault (List (Char × Char) × List Char)
  | [] => .error .unclosedClass
  | c :: rest =>
    if c = ']' ∧ first = false then
      .ok ((if inRange then ('-', '-') :: ranges else ranges).reverse, rest)
    else if c = '-' ∧ first = false ∧ inRange = false then
      readClass false true ranges rest
    else if inRange then
      match endRange c ranges with
      | .error fault => .error fault
      | .ok ranges => readClass false false ranges rest
    else
      readClass false false ((c, c) :: ranges) rest

/-- Reading a class uses up some of the text. -/
theorem length_readClass {first inRange : Bool} {ranges out : List (Char × Char)}
    {text rest : List Char} (h : readClass first inRange ranges text = .ok (out, rest)) :
    rest.length < text.length := by
  fun_induction readClass first inRange ranges text with
  | case1 => simp at h
  | case2 => simp_all
  | case4 => simp at h
  | case3 => simp_all; omega
  | case5 => simp_all; omega
  | case6 => simp_all; omega

/-! ## Sequences and groups -/

/-- A group that is open: what stands in front of it, and its finished branches, all last first. -/
structure OpenGroup where
  ahead : List Part
  branches : List (List Part)

/-- What has been read: the parts of the current branch, last first, and the groups around it. -/
structure Reading where
  parts : List Part := []
  groups : List OpenGroup := []

namespace Reading

/-- Add a part to the current branch. -/
def push (reading : Reading) (part : Part) : Reading :=
  { reading with parts := part :: reading.parts }

/-- Whether a group is open. -/
def inGroup (reading : Reading) : Bool :=
  !reading.groups.isEmpty

/-- Open a group. -/
def openGroup (reading : Reading) : Reading :=
  ⟨[], ⟨reading.parts, []⟩ :: reading.groups⟩

/-- Begin the next branch of the innermost group; outside groups a comma is a literal. -/
def nextBranch (reading : Reading) : Reading :=
  match reading.groups with
  | [] => reading.push (.literal ',')
  | group :: groups => ⟨[], { group with branches := reading.parts :: group.branches } :: groups⟩

/-- Close the innermost group. -/
def closeGroup (reading : Reading) : Except Fault Reading :=
  match reading.groups with
  | [] => .error .unopenedGroup
  | group :: groups =>
    let branches := (reading.parts :: group.branches).reverse.map List.reverse
    .ok ⟨.group branches :: group.ahead, groups⟩

/-- Let a part that spans folders take the place of the slash in front of it. -/
def replaceSlash (reading : Reading) (part : Part) : Reading :=
  match reading.parts with
  | .leadingFolders :: _ | .trailingPath :: _ => reading
  | _ :: parts => { reading with parts := part :: parts }
  | [] => reading.push part

/--
Two stars after `before?` and in front of `next?`, and whether they use up the slash that follows.
They span folders at the start of a branch before a slash, and between a slash and the end of the
branch or another slash; anywhere else they are two single stars.
-/
def doubleStar (reading : Reading) (before? next? : Option Char) : Reading × Bool :=
  let stars := (reading.push .anyBytes).push .anyBytes
  if reading.parts.isEmpty then
    if next?.all (· == '/') then (reading.push .leadingFolders, next?.isSome) else (stars, false)
  else if before? == some '/' ||
      (reading.inGroup && (before? == some ',' || before? == some '\x7b')) then
    if next?.isNone || (reading.inGroup && (next? == some ',' || next? == some '\x7d')) then
      (reading.replaceSlash .trailingPath, false)
    else if next? == some '/' then (reading.replaceSlash .innerFolders, true)
    else (stars, false)
  else (stars, false)

end Reading

/-- Read a text that follows `before?` in the pattern. -/
def readParts (before? : Option Char) (reading : Reading) : List Char → Except Fault Reading
  | [] => .ok reading
  | '?' :: rest => readParts (some '?') (reading.push .anyByte) rest
  | '*' :: '*' :: rest =>
    let (reading, slash) := reading.doubleStar before? rest.head?
    if slash then readParts (some '/') reading rest.tail else readParts (some '*') reading rest
  | '*' :: rest => readParts (some '*') (reading.push .anyBytes) rest
  | '[' :: rest =>
    let negated := rest.head?.any fun c => c == '!' || c == '^'
    match _hclass : readClass true false [] (if negated then rest.tail else rest) with
    | .error fault => .error fault
    | .ok (ranges, rest') => readParts (some ']') (reading.push (.byteClass negated ranges)) rest'
  | '\x7b' :: rest => readParts (some '\x7b') reading.openGroup rest
  | '\x7d' :: rest =>
    match reading.closeGroup with
    | .error fault => .error fault
    | .ok reading => readParts (some '\x7d') reading rest
  | ',' :: rest => readParts (some ',') reading.nextBranch rest
  | '\\' :: [] => .error .danglingEscape
  | '\\' :: c :: rest => readParts (some c) (reading.push (.literal c)) rest
  | c :: rest => readParts (some c) (reading.push (.literal c)) rest
termination_by text => text.length
decreasing_by
  all_goals simp_wf
  all_goals try omega
  have := length_readClass ‹readClass _ _ _ _ = .ok _›
  split at this <;> simp_all <;> omega

end Glob

/-- Read a pattern. -/
def Glob.parse (source : String) : Except Glob.Fault Glob :=
  match readParts none {} source.toList with
  | .error fault => .error fault
  | .ok reading =>
    if reading.inGroup then .error .unclosedGroup else .ok ⟨source, reading.parts.reverse⟩

/-- A pattern that was read keeps the text that it was read from. -/
theorem Glob.source_of_parse {source : String} {glob : Glob} (h : Glob.parse source = .ok glob) :
    glob.source = source := by
  unfold Glob.parse at h
  split at h
  · simp at h
  · split at h
    · simp at h
    · rw [← Except.ok.inj h]

end QueryHooks
