import QueryHooks.Emission.Eligible
import QueryHooks.Proofs.Config.Making
import QueryHooks.Proofs.Emission.ModuleLines

/-!
# Landmarks of a module

Few lines of a module matter to a reader who is looking for something: those that begin a
declaration and those around the hooks.  They can be told by their beginnings, and no other line of
a module begins like one of them, whatever the affixes are and whichever hooks there are.

Main results:

- Definition `landmarks`: the beginnings of these lines.
- Definition `IsUnmarked`: a row that begins with none of them.
- Theorem `Helper.lines_part`: of a part that declares a helper, only the first line is marked.
- Theorem `Config.mem_partsBefore`: which parts there are in front of the bundle.
- Theorem `isUnmarked_of_mem_spelled`: the lines of the hooks are unmarked.
-/

namespace QueryHooks

open Text (IsRow toList_eq_of_ofList isRow_of_ofList)

/-! ## Landmarks -/

/-- The beginnings of the lines by which things are found in a module. -/
def landmarks : List (List Char) :=
  [['t', 'y', 'p', 'e', ' '], ['e', 'x', 'p', 'o', 'r', 't', ' ', 't', 'y', 'p', 'e', ' '],
    [' ', ' ', 'c', 'o', 'n', 's', 't', ' ', 'u'], [' ', ' ', 'c', 'o', 'n', 's', 't', ' ', 'g'],
    [' ', ' ', ' ', ' ', '.', '.', '.'], [' ', ' ', '\x7d', ';']]

/-- A row that begins with a landmark. -/
def IsLandmark (row : List Char) : Prop :=
  ∃ landmark ∈ landmarks, landmark <+: row

instance (row : List Char) : Decidable (IsLandmark row) :=
  inferInstanceAs (Decidable (∃ landmark ∈ landmarks, landmark <+: row))

/-- A row that is not empty and begins with no landmark. -/
structure IsUnmarked (row : List Char) : Prop where
  isRow : IsRow row
  ne_nil : row ≠ []
  not_isLandmark : ¬IsLandmark row

instance (row : List Char) : Decidable (IsUnmarked row) :=
  decidable_of_iff (IsRow row ∧ row ≠ [] ∧ ¬IsLandmark row)
    ⟨fun ⟨h, hne, hnot⟩ => ⟨h, hne, hnot⟩, fun ⟨h, hne, hnot⟩ => ⟨h, hne, hnot⟩⟩

/-- A known row is unmarked if its characters are. -/
theorem isUnmarked_of_ofList {row : String} {chars : List Char} (h : row = String.ofList chars)
    (hchars : IsUnmarked chars) : IsUnmarked row.toList := by
  rw [toList_eq_of_ofList h]
  exact hchars

/-- Whether a row is unmarked is decided by its beginning. -/
theorem IsUnmarked.append {row later : List Char} (h : IsUnmarked row) (hlength : 12 ≤ row.length)
    (hlater : IsRow later) : IsUnmarked (row ++ later) where
  isRow := Text.isRow_append.2 ⟨h.isRow, hlater⟩
  ne_nil := by simp [h.ne_nil]
  not_isLandmark := by
    rintro ⟨landmark, hmem, hbegins⟩
    have hshort : ∀ landmark ∈ landmarks, landmark.length ≤ 12 := by decide
    have hle := hshort landmark hmem
    refine h.not_isLandmark ⟨landmark, hmem, ?_⟩
    exact List.prefix_of_prefix_length_le hbegins (List.prefix_append _ _) (by omega)

/-- A row is unmarked by its first twelve characters, since no landmark is longer. -/
theorem isUnmarked_string_append {row later : String} {chars : List Char}
    (h : row = String.ofList chars)
    (hchars : IsUnmarked chars) (hlength : 12 ≤ chars.length) (hlater : IsRow later.toList) :
    IsUnmarked (row ++ later).toList := by
  rw [String.toList_append, toList_eq_of_ofList h]
  exact hchars.append hlength hlater

/-! ## Lines of the parts -/

/-- A row with unmarked rows below it. -/
theorem lines_of_isUnmarked {row : String} {rows : List String} (hrow : IsRow row.toList)
    (hne : row.toList ≠ []) (h : ∀ other ∈ rows, IsUnmarked other.toList) :
    ∃ unmarked, Text.lines (joinLines (row :: rows)).toList = row.toList :: unmarked ∧
      ∀ other ∈ unmarked, IsUnmarked other := by
  refine ⟨rows.map String.toList, ?_, List.forall_mem_map.2 h⟩
  rw [lines_joinLines_of_isRow, List.map_cons]
  rw [List.forall_mem_cons]
  exact ⟨⟨hrow, hne⟩, fun other hother => ⟨(h other hother).isRow, (h other hother).ne_nil⟩⟩

theorem lines_rawResponseType : Text.lines rawResponseType.toList = [rawResponseType.toList] := by
  refine Text.lines_row ?_ ?_
  · unfold rawResponseType
    rw [String.toList_append, String.toList_append, Text.isRow_append, Text.isRow_append]
    exact ⟨⟨isRow_of_ofList rfl rfl, isRow_of_ofList rfl rfl⟩, isRow_of_ofList rfl rfl⟩
  · unfold rawResponseType
    exact (endsOpen_append (Text.endsOpen_of_ofList rfl rfl)).ne_nil

theorem lines_keyGenerator : Text.lines keyGenerator.toList = [keyGenerator.toList] := by
  refine Text.lines_row ?_ ?_
  · unfold keyGenerator
    rw [String.toList_append, String.toList_append, Text.isRow_append, Text.isRow_append]
    exact ⟨⟨isRow_of_ofList rfl rfl, isRow_of_ofList rfl rfl⟩, isRow_of_ofList rfl rfl⟩
  · unfold keyGenerator
    exact (endsOpen_append (Text.endsOpen_of_ofList rfl rfl)).ne_nil

/-- The opening of the factory has no row with a landmark. -/
theorem isUnmarked_of_mem_factoryOpening :
    ∀ row ∈ Text.lines factoryOpening.toList, IsUnmarked row := by
  have hhead : IsUnmarked ("export function getSdkWithHooks(client: GraphQLClient, " ++
      "withWrapper: SdkFunctionWrapper = defaultWrapper) \x7b").toList :=
    isUnmarked_string_append rfl (by decide) (by decide) (isRow_of_ofList rfl rfl)
  have hsdk : IsUnmarked "  const sdk = getSdk(client, withWrapper);".toList :=
    isUnmarked_of_ofList rfl (by decide)
  obtain ⟨unmarked, hlines, hunmarked⟩ :=
    lines_of_isUnmarked hhead.isRow hhead.ne_nil (List.forall_mem_singleton.2 hsdk)
  unfold factoryOpening
  rw [hlines]
  exact List.forall_mem_cons.2 ⟨hhead, hunmarked⟩

section Parts

variable {affixes : Affixes} (haffixes : affixes.IsSingleLine)
include haffixes

/-- Only the first row of the type of key loaders has a landmark. -/
theorem lines_keyLoaderType :
    ∃ unmarked, Text.lines (keyLoaderType affixes).toList =
        ("export type " ++ affixes.wrap Hook.keyLoader ++
          "<Data = unknown, Variables = unknown> = (").toList :: unmarked ∧
      ∀ row ∈ unmarked, IsUnmarked row := by
  refine lines_of_isUnmarked ?_ ?_ ?_
  · simp [Hook.keyLoader, haffixes.before, haffixes.after]
  · simp
  · repeat' refine List.forall_mem_cons.2 ⟨?_, ?_⟩
    all_goals first
      | exact List.forall_mem_nil _
      | exact isUnmarked_of_ofList rfl (by decide)

/-- Only the first row of the utilities has a landmark. -/
theorem lines_infiniteUtilities :
    ∃ unmarked, Text.lines (infiniteUtilities affixes).toList =
        "  const utilsForInfinite = \x7b".toList :: unmarked ∧
      ∀ row ∈ unmarked, IsUnmarked row := by
  have hkey : IsUnmarked
      ("      getKey: " ++ affixes.wrap Hook.keyLoader ++ "<Data, Variables>").toList := by
    rw [String.append_assoc]
    refine isUnmarked_string_append rfl (by decide) (by decide) ?_
    simp [Hook.keyLoader, haffixes.before, haffixes.after]
  have hfetcher : IsUnmarked ("    generateFetcher: <Query = unknown, Variables = unknown>" ++
      "(query: (variables: Variables) => Promise<Query>, variables?: Variables) => (").toList :=
    isUnmarked_string_append rfl (by decide) (by decide) (isRow_of_ofList rfl rfl)
  refine lines_of_isUnmarked ?_ ?_ ?_
  · exact isRow_of_ofList rfl rfl
  · simp
  · repeat' refine List.forall_mem_cons.2 ⟨?_, ?_⟩
    all_goals first
      | exact List.forall_mem_nil _
      | with_reducible exact hkey
      | with_reducible exact hfetcher
      | exact isUnmarked_of_ofList rfl (by decide)

theorem lines_bundleType :
    Text.lines (bundleType affixes).toList = [(bundleType affixes).toList] := by
  refine Text.lines_row ?_ ?_
  · simp [bundleType, haffixes.before, haffixes.after]
  · simp [bundleType]

end Parts

/-! ## Helpers -/

/-- What the hooks of a module may need besides the bundle. -/
inductive Helper where
  /-- The type of a whole response. -/
  | rawResponse
  /-- The type of a function that chooses the key of a page. -/
  | keyLoader
  /-- What all infinite hooks share. -/
  | utilities
  /-- The function that makes a key. -/
  | keyGenerator
  deriving DecidableEq, Repr

namespace Helper

/-- The text with which the declaration of a helper begins, up to the end of its name. -/
def head (affixes : Affixes) : Helper → String
  | rawResponse => "type SWRRawResponse"
  | keyLoader => "export type " ++ affixes.wrap Hook.keyLoader
  | utilities => "  const utilsForInfinite"
  | keyGenerator => "  const genKey"

/-- The landmark with which the declaration of a helper begins. -/
def landmark : Helper → List Char
  | rawResponse => ['t', 'y', 'p', 'e', ' ']
  | keyLoader => ['e', 'x', 'p', 'o', 'r', 't', ' ', 't', 'y', 'p', 'e', ' ']
  | utilities => [' ', ' ', 'c', 'o', 'n', 's', 't', ' ', 'u']
  | keyGenerator => [' ', ' ', 'c', 'o', 'n', 's', 't', ' ', 'g']

/-- The part of a module that declares a helper. -/
def part (affixes : Affixes) : Helper → String
  | rawResponse => rawResponseType
  | keyLoader => keyLoaderType affixes
  | utilities => infiniteUtilities affixes
  | keyGenerator => QueryHooks.keyGenerator

/-- The declaration of each helper begins with a landmark. -/
theorem landmark_mem (helper : Helper) : helper.landmark ∈ landmarks := by
  cases helper <;> decide

/-- The head of each helper begins with its landmark. -/
theorem begins_with_landmark (affixes : Affixes) (helper : Helper) :
    helper.landmark <+: (helper.head affixes).toList := by
  cases helper with
  | keyLoader =>
    rw [head, String.toList_append]
    exact List.prefix_append _ _
  | rawResponse | utilities | keyGenerator =>
    rw [head, toList_eq_of_ofList rfl]
    decide

end Helper

/-- A row begins with a head that ends in a whole name. -/
def Declares (head row : List Char) : Prop :=
  ∃ c rest, row = head ++ c :: rest ∧ Config.isNamePart c = false

/-- A row declares the same with more text behind it. -/
theorem Declares.append {head row : List Char} (h : Declares head row) (later : List Char) :
    Declares head (row ++ later) := by
  obtain ⟨c, rest, rfl, hc⟩ := h
  exact ⟨c, rest ++ later, by simp, hc⟩

/-- A row that declares something begins with its head. -/
theorem Declares.begins {head row : List Char} (h : Declares head row) : head <+: row := by
  obtain ⟨c, rest, rfl, _⟩ := h
  exact List.prefix_append _ _

/-- Whether a known row declares something can be decided by its characters. -/
theorem declares_of_ofList {head row : String} {first chars : List Char}
    (hhead : head = String.ofList first) (hrow : row = String.ofList chars)
    (hbegins : first <+: chars)
    (hend : (chars.drop first.length).head?.any (fun c => !Config.isNamePart c) = true) :
    Declares head.toList row.toList := by
  rw [toList_eq_of_ofList hhead, toList_eq_of_ofList hrow]
  obtain ⟨later, rfl⟩ := hbegins
  rw [List.drop_left] at hend
  cases later with
  | nil => simp at hend
  | cons c rest => exact ⟨c, rest, rfl, by simpa using hend⟩

/-- The first line of the part of a helper declares it, and the others are unmarked. -/
theorem Helper.lines_part {affixes : Affixes} (haffixes : affixes.IsSingleLine) (helper : Helper) :
    ∃ first unmarked, Text.lines (helper.part affixes).toList = first :: unmarked ∧
      Declares (helper.head affixes).toList first ∧ ∀ row ∈ unmarked, IsUnmarked row := by
  cases helper with
  | rawResponse =>
    refine ⟨_, [], lines_rawResponseType, ?_, by simp⟩
    unfold rawResponseType
    rw [String.toList_append, String.toList_append]
    refine ((declares_of_ofList rfl rfl ?_ ?_).append _).append _
    · decide
    · decide
  | keyLoader =>
    obtain ⟨unmarked, hlines, hunmarked⟩ := lines_keyLoaderType haffixes
    have htype : "<Data = unknown, Variables = unknown> = (".toList = '<' :: _ :=
      toList_eq_of_ofList rfl
    refine ⟨_, unmarked, hlines, ?_, hunmarked⟩
    rw [String.toList_append, htype]
    exact ⟨'<', _, rfl, by decide⟩
  | utilities =>
    obtain ⟨unmarked, hlines, hunmarked⟩ := lines_infiniteUtilities haffixes
    exact ⟨_, unmarked, hlines, declares_of_ofList rfl rfl (by decide) (by decide), hunmarked⟩
  | keyGenerator =>
    refine ⟨_, [], lines_keyGenerator, ?_, by simp⟩
    unfold QueryHooks.keyGenerator
    rw [String.toList_append, String.toList_append]
    refine ((declares_of_ofList rfl rfl ?_ ?_).append _).append _
    · decide
    · decide

/-! ## Parts in front of the bundle -/

/-- Whether a helper is declared under a configuration. -/
def Helper.gate (config : Config) : Helper → Bool
  | rawResponse => config.rawResponse
  | keyLoader | utilities => config.infiniteEnabled
  | keyGenerator => config.autogenKey

/-- The parts of a module in front of its bundle. -/
def Config.partsBefore (config : Config) : List String :=
  (if config.rawResponse then [rawResponseType] else []) ++
    (if config.infiniteEnabled then [keyLoaderType config.affixes] else []) ++
    [factoryOpening] ++
    (if config.infiniteEnabled then [infiniteUtilities config.affixes] else []) ++
    (if config.autogenKey then [keyGenerator] else [])

/-- A module ends with its bundle and the type of this. -/
theorem Config.parts_eq (config : Config) (hooks : List Hook) :
    config.parts hooks = config.partsBefore ++ [bundle hooks, bundleType config.affixes] :=
  rfl

/--
In front of the bundle, there are the opening of the function and the helpers whose gates hold.
-/
theorem Config.mem_partsBefore {config : Config} {part : String} :
    part ∈ config.partsBefore ↔
      part = factoryOpening ∨ ∃ helper :
        Helper, helper.gate config ∧ part = helper.part config.affixes := by
  simp only [partsBefore, List.mem_append, List.mem_ite_nil_right, List.mem_singleton]
  constructor
  · rintro ((((⟨hgate, rfl⟩ | ⟨hgate, rfl⟩) | rfl) | ⟨hgate, rfl⟩) | ⟨hgate, rfl⟩)
    · exact .inr ⟨.rawResponse, hgate, rfl⟩
    · exact .inr ⟨.keyLoader, hgate, rfl⟩
    · exact .inl rfl
    · exact .inr ⟨.utilities, hgate, rfl⟩
    · exact .inr ⟨.keyGenerator, hgate, rfl⟩
  · rintro (rfl | ⟨helper, hgate, rfl⟩)
    · exact .inl (.inl (.inr rfl))
    · cases helper with
      | rawResponse => exact .inl (.inl (.inl (.inl ⟨hgate, rfl⟩)))
      | keyLoader => exact .inl (.inl (.inl (.inr ⟨hgate, rfl⟩)))
      | utilities => exact .inl (.inr ⟨hgate, rfl⟩)
      | keyGenerator => exact .inr ⟨hgate, rfl⟩

/-- A character that can be in the name of a type ends no line. -/
theorem isRow_of_isNamePart {text : List Char} (h : ∀ c ∈ text, Config.isNamePart c = true) :
    IsRow text := by
  intro c hc
  constructor
  · rintro rfl
    exact absurd (h _ hc) (by decide)
  · rintro rfl
    exact absurd (h _ hc) (by decide)

/-- The affixes of a configuration that options make fit into a line. -/
theorem Config.Reflects.isSingleLine {options : Options} {config : Config}
    (h : Reflects options config) : config.affixes.IsSingleLine where
  before := isRow_of_isNamePart h.before
  after := isRow_of_isNamePart h.after

/-! ## Lines of the hooks -/

/-- The lines of the hooks as they stand in the bundle are unmarked. -/
theorem isUnmarked_of_mem_spelled {hooks : List Hook} (h : ∀ hook ∈ hooks, hook.IsTidy)
    {row : List Char} (hrow : row ∈ spelled (hooks.map Hook.indentedRows)) : IsUnmarked row := by
  obtain ⟨rest, rfl, hrest, hstart⟩ := indented_of_mem_spelled h hrow
  refine ⟨by simp [indented, hrest], by simp [indented], ?_⟩
  rcases hstart with ⟨later, rfl⟩ | ⟨later, rfl⟩ | ⟨later, rfl⟩
  · simp [IsLandmark, landmarks, indented]
  · simp [IsLandmark, landmarks, indented]
  · simp [IsLandmark, landmarks, indented]

/-- Hooks of operations whose names fit into lines are tidy. -/
theorem Config.isTidy_of_mem_hooksFor {config : Config} {operations : List Operation}
    (haffixes : config.affixes.IsSingleLine) (h : ∀ operation ∈ operations, operation.IsSingleLine)
    {hook : Hook} (hhook : hook ∈ config.hooksFor operations) : hook.IsTidy := by
  obtain ⟨operation, hoperation, hmem⟩ := List.mem_flatMap.1 hhook
  exact isTidy_of_mem_hooksOf (h operation (List.mem_filter.1 hoperation).1) haffixes hmem

end QueryHooks
