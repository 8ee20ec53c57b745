import Mathlib.Data.List.Forall2
import Mathlib.Data.List.Induction
import QueryHooks.Document.Parser

/-!
# Segments of a document

The lexemes of a document fall into segments, one for each definition, and each segment is read as
its definition by itself.  It begins with the keyword or the brace that begins the definition, and
that is where the position of an operation comes from.

Main results:

- Definition `Begins`: a lexeme is the first one of a definition.
- Theorem `HeadReader.begunBy_of_step`: each lexeme that is taken keeps what was begun.
- Theorem `Segmented.step`: each lexeme keeps the division into segments.
- Theorem `segments_of_parse`: a document that is parsed falls into the segments of its definitions.
-/

namespace QueryHooks

/-- The keyword that begins an operation of a kind. -/
def Operation.Kind.keyword : Operation.Kind → String
  | query => "query"
  | mutation => "mutation"
  | subscription => "subscription"

namespace Document

/-- Each kind of operation has exactly one keyword. -/
theorem kindOfKeyword?_eq_some_iff {chars : List Char} {kind : Operation.Kind} :
    kindOfKeyword? chars = some kind ↔ chars = kind.keyword.toList := by
  constructor
  · intro h
    unfold kindOfKeyword? at h
    split at h
    · rw [← Option.some.inj h]
      assumption
    · split at h
      · rw [← Option.some.inj h]
        assumption
      · split at h
        · rw [← Option.some.inj h]
          assumption
        · exact absurd h (by simp)
  · rintro rfl
    cases kind <;> decide

/-! ## The first lexeme of a definition -/

/--
A lexeme is the first one of a definition: the keyword of an operation at its position, the brace of
an operation that has neither name nor variables, or the keyword of a fragment.
-/
inductive Begins : Lexeme → Definition → Prop where
  | keyword (definition : OperationDefinition) :
      Begins ⟨definition.position, .name definition.kind.keyword.toList⟩ (.operation definition)
  | brace (position : Position) :
      Begins ⟨position, .punctuator '\x7b'⟩ (.operation (.opening position .query))
  | fragment (position : Position) (name : String) :
      Begins ⟨position, .name "fragment".toList⟩ (.fragment name)

/-- The definition that is being read was begun by a lexeme. -/
def HeadReader.BegunBy (lexeme : Lexeme) : HeadReader → Prop
  | outside => False
  | operationName definition | variableList definition | dollar definition _ |
    variableName definition | variableColon definition _ | variableType definition _ _ |
    variableDefault definition _ _ _ =>
    lexeme = ⟨definition.position, .name definition.kind.keyword.toList⟩
  | fragmentName | fragmentOn _ | fragmentType _ => lexeme.token = .name "fragment".toList
  | body definition _ => Begins lexeme definition

/-- What comes of a definition that was begun by a lexeme. -/
def Progress.BegunBy (lexeme : Lexeme) : Progress HeadReader Definition → Prop
  | more reader => reader.BegunBy lexeme
  | done definition => Begins lexeme definition

namespace HeadReader

variable {lexeme : Lexeme} {token : Token} {progress : Progress HeadReader Definition}

/-- A definition is begun by its first lexeme. -/
theorem begunBy_of_begin {reader : HeadReader} (h : begin? lexeme = some reader) :
    reader.BegunBy lexeme := by
  obtain ⟨position, token⟩ := lexeme
  unfold begin? at h
  split at h
  · rename_i chars htoken
    obtain rfl : token = .name chars := htoken
    split at h
    · rename_i hchars
      rw [← Option.some.inj h, hchars]
      rfl
    · obtain ⟨kind, hkind, rfl⟩ := Option.map_eq_some_iff.1 h
      rw [kindOfKeyword?_eq_some_iff.1 hkind]
      rfl
  · rename_i htoken
    obtain rfl : token = .punctuator '\x7b' := htoken
    rw [← Option.some.inj h]
    exact .brace position
  · exact absurd h (by simp)

/-- A selection does not change what its definition was begun by. -/
theorem begunBy_of_stepBody {definition : Definition} {place : SelectionReader.Place}
    (hbegun : Begins lexeme definition) (h : stepBody definition place token = some progress) :
    progress.BegunBy lexeme := by
  obtain ⟨result, _, rfl⟩ := Option.map_eq_some_iff.1 h
  cases result with
  | more place => exact hbegun
  | done result => exact hbegun

variable {definition : OperationDefinition}
  (hbegun : lexeme = ⟨definition.position, .name definition.kind.keyword.toList⟩)

include hbegun

theorem begins_operation : Begins lexeme (.operation definition) := by
  rw [hbegun]
  exact .keyword definition

/-- Nor does what stands behind the name of an operation. -/
theorem begunBy_of_stepVariables (h : stepVariables definition token = some progress) :
    progress.BegunBy lexeme := by
  unfold stepVariables at h
  split at h
  · rw [← Option.some.inj h]
    exact hbegun
  · exact begunBy_of_stepBody (begins_operation hbegun) h

/-- Nor does the list of variables. -/
theorem begunBy_of_stepDollar {first : Bool}
    (h : stepDollar definition first token = some progress) : progress.BegunBy lexeme := by
  unfold stepDollar at h
  split at h
  · rw [← Option.some.inj h]
    exact hbegun
  · split at h
    · exact absurd h (by simp)
    · rw [← Option.some.inj h]
      exact begins_operation hbegun
  · exact absurd h (by simp)

/-- Nor does what stands behind the type of a variable. -/
theorem begunBy_of_stepAfterType {name : String} {type : TypeSyntax}
    (h : stepAfterType definition name type token = some progress) : progress.BegunBy lexeme := by
  unfold stepAfterType at h
  split at h
  · rw [← Option.some.inj h]
    exact hbegun
  · let declared := definition.declare ⟨name, type, none⟩
    have hdeclared : lexeme = ⟨declared.position, .name declared.kind.keyword.toList⟩ := hbegun
    exact begunBy_of_stepDollar hdeclared h

omit hbegun in
/-- Each lexeme that is taken keeps what was begun, up to the definition that it completes. -/
theorem begunBy_of_step {reader : HeadReader} {next : Lexeme} (hreader : reader.BegunBy lexeme)
    (h : reader.step next = some progress) : progress.BegunBy lexeme := by
  unfold step at h
  split at h
  · exact hreader.elim
  · rw [← Option.some.inj h]
    exact hreader
  · exact begunBy_of_stepVariables hreader h
  · exact begunBy_of_stepVariables hreader h
  · exact begunBy_of_stepDollar hreader h
  · rw [← Option.some.inj h]
    exact hreader
  · rw [← Option.some.inj h]
    exact hreader
  · split at h
    · rw [← Option.some.inj h]
      exact hreader
    · obtain ⟨type, _, hafter⟩ := Option.bind_eq_some_iff.1 h
      exact begunBy_of_stepAfterType hreader hafter
  · obtain ⟨result, _, rfl⟩ := Option.map_eq_some_iff.1 h
    cases result with
    | more reader => exact hreader
    | done value => exact hreader
  · rw [← Option.some.inj h]
    exact hreader
  · split at h
    · rw [← Option.some.inj h]
      exact hreader
    · exact absurd h (by simp)
  · rw [← Option.some.inj h]
    obtain ⟨position, token⟩ := lexeme
    obtain rfl : token = .name "fragment".toList := hreader
    exact .fragment position _
  · exact begunBy_of_stepBody hreader h
  · exact absurd h (by simp)

end HeadReader

/-! ## Steps of the parser -/

namespace Parser

theorem run_singleton (parser : Parser) (lexeme : Lexeme) :
    parser.run [lexeme] = parser.step lexeme := by
  simp [run]

/-- A run takes its first lexeme and goes on with the rest. -/
theorem run_cons (parser : Parser) (lexeme : Lexeme) (lexemes : List Lexeme) :
    parser.run (lexeme :: lexemes) = parser.step lexeme >>= (·.run lexemes) := by
  simp [run]

/-- A run takes its first lexeme and then the others. -/
theorem run_cons_eq_ok_iff {parser later : Parser} {lexeme : Lexeme} {lexemes : List Lexeme} :
    parser.run (lexeme :: lexemes) = .ok later ↔
      ∃ between, parser.step lexeme = .ok between ∧ between.run lexemes = .ok later := by
  rw [run_cons]
  cases parser.step lexeme with
  | error stop => simp [bind, Except.bind]
  | ok between => simp [bind, Except.bind]

/-- A lexeme either goes on with a definition or completes it. -/
theorem step_cases {parser later : Parser} {lexeme : Lexeme} (h : parser.step lexeme = .ok later) :
    (∃ reader, parser.reader.step lexeme = some (.more reader) ∧
      later = ⟨parser.definitions, reader⟩) ∨
    (∃ definition, parser.reader.step lexeme = some (.done definition) ∧
      later = ⟨parser.definitions ++ [definition], .outside⟩) := by
  unfold step at h
  split at h
  · exact absurd h (by simp)
  · rename_i reader hreader
    exact .inl ⟨reader, hreader, (Except.ok.inj h).symm⟩
  · rename_i definition hreader
    exact .inr ⟨definition, hreader, (Except.ok.inj h).symm⟩

variable {definitions : List Definition} {reader : HeadReader} {lexeme : Lexeme}

/-- A reader that goes on adds no definition. -/
theorem step_of_more {later : HeadReader} (h : reader.step lexeme = some (.more later)) :
    step ⟨definitions, reader⟩ lexeme = .ok ⟨definitions, later⟩ := by
  rw [step, h]

/-- A definition that is complete is put behind the ones before it. -/
theorem step_of_done {definition : Definition} (h : reader.step lexeme = some (.done definition)) :
    step ⟨definitions, reader⟩ lexeme = .ok ⟨definitions ++ [definition], .outside⟩ := by
  rw [step, h]

end Parser

/-! ## Segments -/

/-- A segment is read as a definition by itself, and its first lexeme begins that definition. -/
def Spells (segment : List Lexeme) (definition : Definition) : Prop :=
  (∃ lexeme rest, segment = lexeme :: rest ∧ Begins lexeme definition) ∧
    Parser.run {} segment = .ok ⟨[definition], .outside⟩

/--
The lexemes taken so far are the segments of the definitions that are complete, and behind them
those of the definition that is being read, if there is one.
-/
def Segmented (taken : List Lexeme) (parser : Parser) : Prop :=
  ∃ segments current, taken = segments.flatten ++ current ∧
    List.Forall₂ Spells segments parser.definitions ∧
    Parser.run {} current = .ok ⟨[], parser.reader⟩ ∧
    ((current = [] ∧ parser.reader = .outside) ∨
      ∃ lexeme rest, current = lexeme :: rest ∧ parser.reader.BegunBy lexeme)

theorem segmented_nil : Segmented [] {} :=
  ⟨[], [], rfl, .nil, rfl, .inl ⟨rfl, rfl⟩⟩

/-- Whatever comes of the next lexeme belongs to the definition that the current lexemes begin. -/
private theorem begunBy_of_current {current : List Lexeme} {reader : HeadReader} {next : Lexeme}
    {progress : Progress HeadReader Definition}
    (hcurrent : (current = [] ∧ reader = .outside) ∨
      ∃ lexeme rest, current = lexeme :: rest ∧ reader.BegunBy lexeme)
    (h : reader.step next = some progress) :
    ∃ lexeme rest, current ++ [next] = lexeme :: rest ∧ progress.BegunBy lexeme := by
  rcases hcurrent with ⟨rfl, rfl⟩ | ⟨lexeme, rest, rfl, hbegun⟩
  · obtain ⟨reader, hreader, rfl⟩ := Option.map_eq_some_iff.1 h
    exact ⟨next, [], rfl, HeadReader.begunBy_of_begin hreader⟩
  · exact ⟨lexeme, rest ++ [next], rfl, HeadReader.begunBy_of_step hbegun h⟩

/-- Each lexeme that the parser takes keeps the division into segments. -/
theorem Segmented.step {taken : List Lexeme} {parser later : Parser} {next : Lexeme}
    (h : Segmented taken parser) (hstep : parser.step next = .ok later) :
    Segmented (taken ++ [next]) later := by
  obtain ⟨segments, current, rfl, hsegments, hrun, hcurrent⟩ := h
  have hrunNext : Parser.run {} (current ++ [next]) =
      Parser.step ⟨[], parser.reader⟩ next := by
    rw [Parser.run_append, hrun]
    exact Parser.run_singleton _ _
  rcases Parser.step_cases hstep with ⟨reader, hreader, rfl⟩ | ⟨definition, hreader, rfl⟩
  · obtain ⟨lexeme, rest, hfirst, hbegun⟩ := begunBy_of_current hcurrent hreader
    refine ⟨segments, current ++ [next], by simp, hsegments, ?_,
      .inr ⟨lexeme, rest, hfirst, hbegun⟩⟩
    rw [hrunNext, Parser.step_of_more hreader]
  · obtain ⟨lexeme, rest, hfirst, hbegun⟩ := begunBy_of_current hcurrent hreader
    refine ⟨segments ++ [current ++ [next]], [], by simp, ?_, rfl, .inl ⟨rfl, rfl⟩⟩
    refine List.rel_append hsegments (.cons ⟨⟨lexeme, rest, hfirst, hbegun⟩, ?_⟩ .nil)
    rw [hrunNext, Parser.step_of_done hreader]
    rfl

/-- Every run of the parser divides the lexemes that it takes into segments. -/
theorem segmented_of_run {lexemes : List Lexeme} {parser : Parser}
    (h : Parser.run {} lexemes = .ok parser) : Segmented lexemes parser := by
  induction lexemes using List.reverseRecOn generalizing parser with
  | nil =>
    rw [← Except.ok.inj h]
    exact segmented_nil
  | append_singleton taken next ih =>
    rw [Parser.run_append] at h
    cases hrun : Parser.run {} taken with
    | error stop => simp [hrun, bind, Except.bind] at h
    | ok earlier =>
      rw [hrun] at h
      refine (ih hrun).step ?_
      rw [← Parser.run_singleton]
      exact h

/-! ## Documents -/

/-- The lexemes of a document that is parsed are all taken, up to the end of its last definition. -/
theorem run_of_parse {text : String} {definitions : List Definition}
    (h : parse text = .ok definitions) :
    Parser.run {} (scan text.toList).lexemes = .ok ⟨definitions, .outside⟩ := by
  unfold parse at h
  cases hrun : Parser.run {} (scan text.toList).lexemes with
  | error stop => simp [hrun, bind, Except.bind] at h
  | ok parser =>
    simp only [hrun, bind, Except.bind] at h
    split at h
    · rename_i hcomplete
      obtain ⟨complete, reader⟩ := parser
      unfold Parser.complete? at hcomplete
      split at hcomplete
      · rename_i hreader
        obtain rfl : reader = .outside := hreader
        split at hcomplete
        · exact absurd hcomplete (by simp)
        · rw [← Except.ok.inj h, ← Option.some.inj hcomplete]
      · exact absurd hcomplete (by simp)
    · exact absurd h (by simp [throw, throwThe, MonadExceptOf.throw])

/-- A document that is parsed falls into segments, one for each of its definitions in order. -/
theorem segments_of_parse {text : String} {definitions : List Definition}
    (h : parse text = .ok definitions) :
    ∃ segments, segments.flatten = (scan text.toList).lexemes ∧
      List.Forall₂ Spells segments definitions := by
  obtain ⟨segments, current, htaken, hsegments, _, hcurrent⟩ := segmented_of_run (run_of_parse h)
  rcases hcurrent with ⟨rfl, _⟩ | ⟨lexeme, rest, _, hbegun⟩
  · exact ⟨segments, by simp [htaken], hsegments⟩
  · exact hbegun.elim

end Document

end QueryHooks
