import QueryHooks.Proofs.Document.Segments

/-!
# Places of definitions

Where a definition stands, and which definitions stand in front of it, does not matter to the
parser.  The positions of the lexemes are only copied into the definitions, so without them the
parser takes the same steps; and the definitions that are complete are never looked at again.

Main results:

- Theorem `HeadReader.step_mapHead`: what is replaced in a definition is copied with each step.
- Theorem `HeadReader.step_unplaced`: a reader without positions takes lexemes without positions
  alike.
- Theorem `Parser.exists_run_of_tokens_eq`: lexemes with the same tokens give the same definitions
  up to their positions.
- Theorem `Parser.exists_run_outside`: so it is for a document that is read up to its end.
- Theorem `Parser.run_behind`: definitions that are complete stay in front of what is read behind
  them.
-/

namespace QueryHooks.Document

/-! ## Other definitions in a reader -/

/-- What comes of a token, seen through a function on readers and one on results. -/
def Progress.map {ρ σ α β : Type} (f : ρ → σ) (g : α → β) : Progress ρ α → Progress σ β
  | more reader => .more (f reader)
  | done result => .done (g result)

/-- A definition where the operation that it may define is replaced. -/
def Definition.mapOperation (f : OperationDefinition → OperationDefinition) :
    Definition → Definition
  | operation definition => operation (f definition)
  | fragment name => fragment name

/-- What a reader adds to a definition does not depend on what is replaced in it. -/
structure OperationDefinition.IsUniform (f : OperationDefinition → OperationDefinition) : Prop where
  declare : ∀ definition v, f (OperationDefinition.declare definition v) = (f definition).declare v
  rename : ∀ definition name?,
    f { definition with name? := name? } = { f definition with name? := name? }

namespace HeadReader

variable {f : OperationDefinition → OperationDefinition}

/-- A reader where the definition that it reads is replaced. -/
def mapHead (f : OperationDefinition → OperationDefinition) : HeadReader → HeadReader
  | outside => outside
  | operationName definition => operationName (f definition)
  | variableList definition => variableList (f definition)
  | dollar definition first => dollar (f definition) first
  | variableName definition => variableName (f definition)
  | variableColon definition name => variableColon (f definition) name
  | variableType definition name reader => variableType (f definition) name reader
  | variableDefault definition name type reader => variableDefault (f definition) name type reader
  | fragmentName => fragmentName
  | fragmentOn name => fragmentOn name
  | fragmentType name => fragmentType name
  | body definition place => body (definition.mapOperation f) place

/-- What comes of a token, where the definition is replaced. -/
def mapProgress (f : OperationDefinition → OperationDefinition) :
    Progress HeadReader Definition → Progress HeadReader Definition :=
  Progress.map (mapHead f) (Definition.mapOperation f)

/-- A selection is read alike, whatever is replaced in the definition around it. -/
theorem stepBody_mapHead (definition : Definition) (place : SelectionReader.Place) (token : Token) :
    stepBody (definition.mapOperation f) place token =
      (stepBody definition place token).map (mapProgress f) := by
  rw [stepBody, stepBody, Option.map_map]
  congr 1
  funext progress
  cases progress <;> rfl

variable (definition : OperationDefinition)

/-- So is what stands behind the name of an operation. -/
theorem stepVariables_mapHead (token : Token) :
    stepVariables (f definition) token = (stepVariables definition token).map (mapProgress f) := by
  unfold stepVariables
  split
  · rfl
  · exact stepBody_mapHead (.operation definition) SelectionReader.start _

/-- So is the list of variables. -/
theorem stepDollar_mapHead (first : Bool) (token : Token) :
    stepDollar (f definition) first token =
      (stepDollar definition first token).map (mapProgress f) := by
  unfold stepDollar
  split
  · rfl
  · cases first <;> rfl
  · rfl

variable (hf : OperationDefinition.IsUniform f)

include hf

/-- So is what stands behind the type of a variable. -/
theorem stepAfterType_mapHead (name : String) (type : TypeSyntax) (token : Token) :
    stepAfterType (f definition) name type token =
      (stepAfterType definition name type token).map (mapProgress f) := by
  unfold stepAfterType
  split
  · rfl
  · rw [← hf.declare]
    exact stepDollar_mapHead (definition.declare ⟨name, type, none⟩) false _

/-- So is the type of a variable, which does not look at positions either. -/
theorem stepVariableType_mapHead (name : String) (reader : TypeReader) (position other : Position)
    (token : Token) :
    (variableType (f definition) name reader).step ⟨other, token⟩ =
      ((variableType definition name reader).step ⟨position, token⟩).map (mapProgress f) := by
  simp only [step]
  cases reader.step token with
  | some later => rfl
  | none =>
    cases reader.complete? with
    | none => rfl
    | some type => exact stepAfterType_mapHead definition hf name type token

/-- So is the default value of a variable. -/
theorem stepVariableDefault_mapHead (name : String) (type : TypeSyntax) (reader : ValueReader)
    (position other : Position) (token : Token) :
    (variableDefault (f definition) name type reader).step ⟨other, token⟩ =
      ((variableDefault definition name type reader).step ⟨position, token⟩).map
      (mapProgress f) := by
  simp only [step]
  cases reader.step false token with
  | none => rfl
  | some progress =>
    cases progress with
    | more reader => rfl
    | done value => simp only [Option.map_some, mapProgress, Progress.map, mapHead, hf.declare]

omit definition in
/-- Inside of a definition, neither its parts nor the positions decide on how a token is taken. -/
theorem step_mapHead {reader : HeadReader} (hreader : reader ≠ outside) (position other : Position)
    (token : Token) :
    (reader.mapHead f).step ⟨other, token⟩ =
    (reader.step ⟨position, token⟩).map (mapProgress f) := by
  cases reader with
  | outside => exact absurd rfl hreader
  | operationName definition =>
    cases token with
    | name chars =>
      have hrename := hf.rename definition (some (String.ofList chars))
      exact congrArg (fun head => some (Progress.more (variableList head))) hrename.symm
    | punctuator c => exact stepVariables_mapHead definition (.punctuator c)
    | ellipsis => exact stepVariables_mapHead definition .ellipsis
    | number chars => exact stepVariables_mapHead definition (.number chars)
    | string chars => exact stepVariables_mapHead definition (.string chars)
    | block chars => exact stepVariables_mapHead definition (.block chars)
  | variableList definition => exact stepVariables_mapHead definition token
  | dollar definition first => exact stepDollar_mapHead definition first token
  | variableName definition => cases token <;> rfl
  | variableColon definition name =>
    cases token with
    | punctuator c =>
      by_cases hc : c = ':'
      · subst hc
        rfl
      · simp [step, mapHead, hc]
    | _ => rfl
  | variableType definition name reader =>
    exact stepVariableType_mapHead definition hf name reader position other token
  | variableDefault definition name type reader =>
    exact stepVariableDefault_mapHead definition hf name type reader position other token
  | fragmentName => cases token <;> rfl
  | fragmentOn name =>
    cases token with
    | name chars =>
      simp only [step, mapHead]
      split <;> rfl
    | _ => rfl
  | fragmentType name => cases token <;> rfl
  | body definition place => exact stepBody_mapHead definition place token

end HeadReader

/-! ## Definitions without their positions -/

/-- A definition without its position. -/
def OperationDefinition.unplaced (definition : OperationDefinition) : OperationDefinition :=
  { definition with position := {} }

/-- A definition without its position. -/
def Definition.unplaced : Definition → Definition
  | operation definition => operation definition.unplaced
  | fragment name => fragment name

/-- A lexeme without its position. -/
def Lexeme.unplaced (lexeme : Lexeme) : Lexeme :=
  ⟨{}, lexeme.token⟩

/-! ## Readers -/

namespace HeadReader

/-- A reader without the position of the definition that it reads. -/
def unplaced : HeadReader → HeadReader
  | outside => outside
  | operationName definition => operationName definition.unplaced
  | variableList definition => variableList definition.unplaced
  | dollar definition first => dollar definition.unplaced first
  | variableName definition => variableName definition.unplaced
  | variableColon definition name => variableColon definition.unplaced name
  | variableType definition name reader => variableType definition.unplaced name reader
  | variableDefault definition name type reader =>
    variableDefault definition.unplaced name type reader
  | fragmentName => fragmentName
  | fragmentOn name => fragmentOn name
  | fragmentType name => fragmentType name
  | body definition place => body definition.unplaced place

/-- What comes of a token, without the position of the definition. -/
def unplacedProgress : Progress HeadReader Definition → Progress HeadReader Definition :=
  Progress.map unplaced Definition.unplaced

/-- The first lexeme of a definition begins the same one at any position. -/
theorem begin?_unplaced (lexeme : Lexeme) :
    begin? lexeme.unplaced = (begin? lexeme).map unplaced := by
  obtain ⟨position, token⟩ := lexeme
  unfold begin?
  simp only [Lexeme.unplaced]
  split
  · split
    · rfl
    · rw [Option.map_map]
      rfl
  · rfl
  · rfl

/-- Nothing that a reader adds to a definition depends on its position. -/
theorem isUniform_unplaced : OperationDefinition.IsUniform OperationDefinition.unplaced where
  declare _ _ := rfl
  rename _ _ := rfl

theorem mapOperation_unplaced (definition : Definition) :
    definition.mapOperation OperationDefinition.unplaced = definition.unplaced := by
  cases definition <;> rfl

theorem mapHead_unplaced (reader : HeadReader) :
    reader.mapHead OperationDefinition.unplaced = reader.unplaced := by
  cases reader with
  | body definition place => exact congrArg (body · place) (mapOperation_unplaced definition)
  | _ => rfl

theorem mapProgress_unplaced : mapProgress OperationDefinition.unplaced = unplacedProgress := by
  funext progress
  cases progress with
  | more reader => exact congrArg Progress.more (mapHead_unplaced reader)
  | done definition => exact congrArg Progress.done (mapOperation_unplaced definition)

/-- Without positions, a reader takes the same lexemes in the same way. -/
theorem step_unplaced (reader : HeadReader) (lexeme : Lexeme) :
    reader.unplaced.step lexeme.unplaced = (reader.step lexeme).map unplacedProgress := by
  by_cases hreader : reader = outside
  · subst hreader
    simp only [step, unplaced, Option.map_map, begin?_unplaced]
    rfl
  · rw [← mapHead_unplaced, ← mapProgress_unplaced]
    exact step_mapHead isUniform_unplaced hreader lexeme.position {} lexeme.token

end HeadReader

/-! ## Runs of the parser -/

namespace Parser

/-- A parser without the positions of the definitions. -/
def unplaced (parser : Parser) : Parser :=
  ⟨parser.definitions.map Definition.unplaced, parser.reader.unplaced⟩

/-- Without positions, the parser takes the same lexemes in the same way. -/
theorem toOption_step_unplaced (parser : Parser) (lexeme : Lexeme) :
    (parser.unplaced.step lexeme.unplaced).toOption =
      (parser.step lexeme).toOption.map unplaced := by
  rw [step, step]
  have hstep := HeadReader.step_unplaced parser.reader lexeme
  rw [show parser.unplaced.reader = parser.reader.unplaced from rfl, hstep]
  cases parser.reader.step lexeme with
  | none => rfl
  | some progress =>
    cases progress with
    | more reader => rfl
    | done definition =>
      simp [unplaced, HeadReader.unplacedProgress, Progress.map, Except.toOption,
        HeadReader.unplaced]

/--
A run of the parser succeeds without positions if and only if it does with them, up to positions.
-/
theorem toOption_run_unplaced (parser : Parser) (lexemes : List Lexeme) :
    (parser.unplaced.run (lexemes.map Lexeme.unplaced)).toOption =
      (parser.run lexemes).toOption.map unplaced := by
  induction lexemes generalizing parser with
  | nil => rfl
  | cons lexeme lexemes ih =>
    have hstep := toOption_step_unplaced parser lexeme
    rw [List.map_cons, run_cons, run_cons]
    cases hplaced : parser.step lexeme with
    | error stop =>
      cases hunplaced : parser.unplaced.step lexeme.unplaced with
      | error other => rfl
      | ok later => simp [hplaced, hunplaced, Except.toOption] at hstep
    | ok later =>
      cases hunplaced : parser.unplaced.step lexeme.unplaced with
      | error stop => simp [hplaced, hunplaced, Except.toOption] at hstep
      | ok other =>
        obtain rfl : other = later.unplaced := by
          simpa [hplaced, hunplaced, Except.toOption] using hstep
        exact ih later

/-- Lexemes with the same tokens are taken alike: only positions differ in what comes of them. -/
theorem exists_run_of_tokens_eq {parser later : Parser} {lexemes others : List Lexeme}
    (htokens : others.map Lexeme.token = lexemes.map Lexeme.token)
    (hrun : parser.run lexemes = .ok later) :
    ∃ another, parser.run others = .ok another ∧ another.unplaced = later.unplaced := by
  have hunplaced : others.map Lexeme.unplaced = lexemes.map Lexeme.unplaced := by
    have hmap := congrArg (List.map fun token => (⟨{}, token⟩ : Lexeme)) htokens
    rw [List.map_map, List.map_map] at hmap
    exact hmap
  have hlexemes := toOption_run_unplaced parser lexemes
  rw [← hunplaced, toOption_run_unplaced, hrun] at hlexemes
  cases hothers : parser.run others with
  | error stop => simp [hothers, Except.toOption] at hlexemes
  | ok another => exact ⟨another, rfl, by simpa [hothers, Except.toOption] using hlexemes⟩

/-- Lexemes with the same tokens lead to the end of a document alike. -/
theorem exists_run_outside {parser : Parser} {lexemes others : List Lexeme}
    {definitions : List Definition}
    (htokens : others.map Lexeme.token = lexemes.map Lexeme.token)
    (hrun : parser.run lexemes = .ok ⟨definitions, .outside⟩) :
    ∃ moved, parser.run others = .ok ⟨moved, .outside⟩ ∧
      moved.map Definition.unplaced = definitions.map Definition.unplaced := by
  obtain ⟨⟨moved, reader⟩, hmoved, hunplaced⟩ := exists_run_of_tokens_eq htokens hrun
  obtain ⟨hdefinitions, hreader⟩ := Parser.mk.inj hunplaced
  have houtside : reader = .outside := by
    cases reader with
    | outside => rfl
    | _ => exact absurd hreader (by simp [HeadReader.unplaced])
  exact ⟨moved, by rw [hmoved, houtside], hdefinitions⟩

/-- The definitions that are complete already do not matter to what is read behind them. -/
theorem run_behind (earlier : List Definition) (parser : Parser) (lexemes : List Lexeme) :
    run ⟨earlier ++ parser.definitions, parser.reader⟩ lexemes =
      (parser.run lexemes).map fun later => ⟨earlier ++ later.definitions, later.reader⟩ := by
  induction lexemes generalizing parser with
  | nil => rfl
  | cons lexeme lexemes ih =>
    rw [run_cons, run_cons, step, step]
    cases parser.reader.step lexeme with
    | none => rfl
    | some progress =>
      cases progress with
      | more reader => exact ih ⟨parser.definitions, reader⟩
      | done definition =>
        have hdone := ih ⟨parser.definitions ++ [definition], .outside⟩
        rw [← List.append_assoc] at hdone
        exact hdone

end Parser

end QueryHooks.Document
