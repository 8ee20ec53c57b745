import QueryHooks.Proofs.Document.OperationTokens
import QueryHooks.Proofs.Document.Placement
import QueryHooks.Proofs.Document.ValueTokens

/-!
# Reading definitions

What the parser does with the tokens of a document, one definition at a time.  A token can begin a
default value, go on with it or complete it, it can declare a variable without one, or it leaves the
variables as they are; variables that are declared stay declared, and they do not matter to what is
read behind them.

Main results:

- Definition `HeadReader.Effect` and theorem `HeadReader.effect_step`: all that a token can do.
- Theorem `HeadReader.read?_variableDefault`: a default value is read as a value by itself.
- Theorem `Parser.take_iff`: a document is read definition by definition.
- Theorem `exists_take_dollar`: a variable can be replaced by another one.
-/

namespace QueryHooks.Document

/-! ## Variables of a definition -/

/-- The variables that a definition declares. -/
def Definition.declared : Definition → List VariableDefinition
  | operation definition => definition.declared
  | fragment _ => []

namespace HeadReader

/-- The variables that were declared so far. -/
def declared : HeadReader → List VariableDefinition
  | operationName definition | variableList definition | dollar definition _ |
    variableName definition | variableColon definition _ | variableType definition _ _ |
    variableDefault definition _ _ _ => definition.declared
  | body definition _ => definition.declared
  | outside | fragmentName | fragmentOn _ | fragmentType _ => []

/-- A definition is read, but no default value in it. -/
def IsPlain : HeadReader → Prop
  | outside | variableDefault .. => False
  | _ => True

/-- What a token does to the definition that is read. -/
inductive Effect : HeadReader → Token → Progress HeadReader Definition → Prop where
  | keeps {reader later : HeadReader} {token : Token} (hplain : later.IsPlain)
      (hdeclared : later.declared = reader.declared) : Effect reader token (.more later)
  /-- A variable without a default value is declared. -/
  | declares {reader later : HeadReader} {token : Token} (name : String) (type : TypeSyntax)
      (hplain : later.IsPlain)
      (hdeclared : later.declared = reader.declared ++ [⟨name, type, none⟩]) :
      Effect reader token (.more later)
  /-- A default value begins. -/
  | opens (head : OperationDefinition) (name : String) (type : TypeSyntax) (reader : TypeReader) :
      Effect (variableType head name reader) (.punctuator '=')
        (.more (variableDefault head name type .start))
  | continues {head : OperationDefinition} {name : String} {type : TypeSyntax}
      {reader later : ValueReader}
      {token : Token} (hstep : reader.step false token = some (.more later)) :
      Effect (variableDefault head name type reader) token
        (.more (variableDefault head name type later))
  /-- A default value ends, and its variable is declared. -/
  | closes {head : OperationDefinition} {name : String} {type : TypeSyntax} {reader : ValueReader}
      {value : Value} {token : Token} (hstep : reader.step false token = some (.done value)) :
      Effect (variableDefault head name type reader) token
        (.more (dollar (head.declare ⟨name, type, some value⟩) false))
  | completes {reader : HeadReader} {token : Token} {definition : Definition}
      (hdeclared : definition.declared = reader.declared) : Effect reader token (.done definition)

/-- A definition begins without variables and outside of default values. -/
theorem effect_begin {lexeme : Lexeme} {reader : HeadReader} (h : begin? lexeme = some reader) :
    reader.IsPlain ∧ reader.declared = [] := by
  unfold begin? at h
  split at h
  · split at h
    · obtain rfl := Option.some.inj h
      exact ⟨trivial, rfl⟩
    · obtain ⟨kind, _, rfl⟩ := Option.map_eq_some_iff.1 h
      exact ⟨trivial, rfl⟩
  · obtain rfl := Option.some.inj h
    exact ⟨trivial, rfl⟩
  · exact absurd h (by simp)

variable {reader : HeadReader} {definition : OperationDefinition} {token : Token}
  {progress : Progress HeadReader Definition}

/-- A selection declares no variables. -/
theorem effect_stepBody {definition : Definition} {place : SelectionReader.Place}
    (hdeclared : definition.declared = reader.declared)
    (h : stepBody definition place token = some progress) : Effect reader token progress := by
  obtain ⟨result, _, rfl⟩ := Option.map_eq_some_iff.1 h
  cases result with
  | more place => exact .keeps trivial hdeclared
  | done result => exact .completes hdeclared

/-- What stands behind the name of an operation declares none either. -/
theorem effect_stepVariables (hdeclared : definition.declared = reader.declared)
    (h : stepVariables definition token = some progress) : Effect reader token progress := by
  unfold stepVariables at h
  split at h
  · obtain rfl := Option.some.inj h
    exact .keeps trivial hdeclared
  · have hbody : (Definition.operation definition).declared = reader.declared := hdeclared
    exact effect_stepBody hbody h

/-- In the list of variables none is declared before its type was read. -/
theorem effect_stepDollar {first : Bool} (h : stepDollar definition first token = some progress) :
    ∃ later, progress = .more later ∧ later.IsPlain ∧ later.declared = definition.declared := by
  unfold stepDollar at h
  split at h
  · obtain rfl := Option.some.inj h
    exact ⟨_, rfl, trivial, rfl⟩
  · split at h
    · exact absurd h (by simp)
    · obtain rfl := Option.some.inj h
      exact ⟨_, rfl, trivial, rfl⟩
  · exact absurd h (by simp)

/-- All that a token can do. -/
theorem effect_step {lexeme : Lexeme} (h : reader.step lexeme = some progress) :
    Effect reader lexeme.token progress := by
  obtain ⟨position, token⟩ := lexeme
  unfold step at h
  simp only at h
  split at h
  · obtain ⟨later, hbegin, rfl⟩ := Option.map_eq_some_iff.1 h
    obtain ⟨hplain, hdeclared⟩ := effect_begin hbegin
    exact .keeps hplain hdeclared
  · obtain rfl := Option.some.inj h
    exact .keeps trivial rfl
  · exact effect_stepVariables rfl h
  · exact effect_stepVariables rfl h
  · obtain ⟨later, rfl, hplain, hdeclared⟩ := effect_stepDollar h
    exact .keeps hplain hdeclared
  · obtain rfl := Option.some.inj h
    exact .keeps trivial rfl
  · obtain rfl := Option.some.inj h
    exact .keeps trivial rfl
  · split at h
    · obtain rfl := Option.some.inj h
      exact .keeps trivial rfl
    · obtain ⟨type, _, hafter⟩ := Option.bind_eq_some_iff.1 h
      unfold stepAfterType at hafter
      split at hafter
      · obtain rfl := Option.some.inj hafter
        exact .opens ..
      · obtain ⟨later, rfl, hplain, hdeclared⟩ := effect_stepDollar hafter
        exact .declares _ _ hplain hdeclared
  · obtain ⟨result, hresult, rfl⟩ := Option.map_eq_some_iff.1 h
    cases result with
    | more later => exact .continues hresult
    | done value => exact .closes hresult
  · obtain rfl := Option.some.inj h
    exact .keeps trivial rfl
  · split at h
    · obtain rfl := Option.some.inj h
      exact .keeps trivial rfl
    · exact absurd h (by simp)
  · obtain rfl := Option.some.inj h
    exact .keeps trivial rfl
  · exact effect_stepBody rfl h
  · exact absurd h (by simp)

/-- The variables that were declared when something came of a token. -/
def declaredBy : Progress HeadReader Definition → List VariableDefinition
  | .more reader => reader.declared
  | .done definition => definition.declared

/-- Variables that are declared stay declared. -/
theorem Effect.declared_stays (h : Effect reader token progress) :
    reader.declared <+: declaredBy progress := by
  cases h with
  | keeps _ hdeclared => exact hdeclared ▸ List.prefix_refl _
  | declares _ _ _ hdeclared =>
    rw [declaredBy, hdeclared]
    exact List.prefix_append _ _
  | opens => exact List.prefix_refl _
  | continues => exact List.prefix_refl _
  | closes => exact List.prefix_append _ _
  | completes hdeclared => exact hdeclared ▸ List.prefix_refl _

/-- No token of a definition leads outside of it without completing it. -/
theorem Effect.ne_outside (h : Effect reader token progress) : progress ≠ .more outside := by
  rintro rfl
  cases h with
  | keeps hplain => exact hplain
  | declares _ _ hplain => exact hplain

/-! ## Definitions that are read -/

/-- The definition that comes of some tokens, and the tokens that are left. -/
def read? : Progress HeadReader Definition → List Token → Option (Definition × List Token) :=
  Progress.read? fun reader token => reader.step ⟨{}, token⟩

/-- Reading a definition takes one token and goes on with the others. -/
theorem read?_cons (reader : HeadReader) (token : Token) (tokens : List Token) :
    read? (.more reader) (token :: tokens) = (reader.step ⟨{}, token⟩).bind (read? · tokens) :=
  rfl

@[simp]
theorem read?_done (definition : Definition) (tokens : List Token) :
    read? (.done definition) tokens = some (definition, tokens) :=
  Progress.read?_done definition tokens

/-- The variables that are declared stay declared in the definition that is read. -/
theorem declared_of_read? {tokens rest : List Token} {definition : Definition}
    (h : read? progress tokens = some (definition, rest)) :
    declaredBy progress <+: definition.declared := by
  induction tokens generalizing progress with
  | nil =>
    cases progress with
    | more reader => exact absurd h (by simp [read?, Progress.read?])
    | done found =>
      obtain ⟨rfl, _⟩ := Prod.mk.inj (Option.some.inj h)
      exact List.prefix_refl _
  | cons token tokens ih =>
    cases progress with
    | more reader =>
      obtain ⟨next, hnext, hread⟩ := Option.bind_eq_some_iff.1 h
      exact (effect_step hnext).declared_stays.trans (ih hread)
    | done found =>
      obtain ⟨rfl, _⟩ := Prod.mk.inj (Option.some.inj h)
      exact List.prefix_refl _

/-- A default value is read as a value by itself. -/
theorem read?_variableDefault (head : OperationDefinition) (name : String) (type : TypeSyntax)
    (reader : ValueReader) (tokens : List Token) :
    read? (.more (variableDefault head name type reader)) tokens =
      (ValueReader.read? (.more reader) tokens).bind fun found =>
        read? (.more (dollar (head.declare ⟨name, type, some found.1⟩) false)) found.2 := by
  induction tokens generalizing reader with
  | nil => rfl
  | cons token tokens ih =>
    rw [read?_cons, ValueReader.read?_cons, step]
    cases reader.step false token with
    | none => rfl
    | some next =>
      cases next with
      | more later => exact ih later
      | done value =>
        have hdone := ValueReader.read?_done value tokens
        simp only [Option.map_some, Option.bind_some, hdone]

/-- The definition that is read can be replaced, together with what was begun of it. -/
theorem read?_mapProgress {f : OperationDefinition → OperationDefinition}
    (hf : OperationDefinition.IsUniform f) (hinside : progress ≠ .more outside)
    (tokens : List Token) :
    read? (mapProgress f progress) tokens =
      (read? progress tokens).map fun found => (found.1.mapOperation f, found.2) := by
  induction tokens generalizing progress with
  | nil => cases progress <;> rfl
  | cons token tokens ih =>
    cases progress with
    | done definition => rfl
    | more reader =>
      have hreader : reader ≠ outside := fun houtside => hinside (by rw [houtside])
      change read? (.more (reader.mapHead f)) (token :: tokens) = _
      rw [read?_cons, read?_cons, step_mapHead hf hreader {} {} token]
      cases hnext : reader.step ⟨{}, token⟩ with
      | none => rfl
      | some next => exact ih (effect_step hnext).ne_outside

end HeadReader

/-! ## Parsing tokens -/

namespace Parser

/-- Take tokens without their positions. -/
def take (parser : Parser) (tokens : List Token) : Except Stop Parser :=
  parser.run (tokens.map fun token => ⟨{}, token⟩)

variable {parser later : Parser} {token : Token} {tokens others : List Token}
  {definitions found : List Definition} {progress : Progress HeadReader Definition}

/-- Tokens are taken one list behind the other. -/
theorem take_append (parser : Parser) (tokens others : List Token) :
    parser.take (tokens ++ others) = parser.take tokens >>= (·.take others) := by
  rw [take, List.map_append, run_append]
  rfl

/-- A token that is taken leads from a reader to what comes of it. -/
theorem take_cons (definitions : List Definition) (reader : HeadReader) (token : Token)
    (tokens : List Token) :
    take ⟨definitions, reader⟩ (token :: tokens) =
      match reader.step ⟨{}, token⟩ with
      | none => .error (stopAt ⟨definitions, reader⟩ ⟨{}, token⟩)
      | some progress => (behind definitions progress).take tokens := by
  rw [take, List.map_cons, run_cons, step]
  cases reader.step ⟨{}, token⟩ with
  | none => rfl
  | some progress => cases progress <;> rfl

/-- Definitions that are complete stay complete. -/
theorem prefix_of_take (h : parser.take tokens = .ok later) :
    parser.definitions <+: later.definitions := by
  induction tokens generalizing parser with
  | nil =>
    obtain rfl := Except.ok.inj h
    exact List.prefix_refl _
  | cons token tokens ih =>
    obtain ⟨definitions, reader⟩ := parser
    rw [take_cons] at h
    split at h
    · exact absurd h (by simp)
    · rename_i progress _
      have hbehind := ih h
      cases progress with
      | more reader => exact hbehind
      | done definition => exact (List.prefix_append definitions [definition]).trans hbehind

/--
Tokens that lead from inside of a definition to the end of a document are those of that definition
and those of the definitions behind it.
-/
theorem take_behind_iff (hinside : progress ≠ .more .outside ∨ tokens ≠ []) :
    (behind definitions progress).take tokens = .ok ⟨found, .outside⟩ ↔
      ∃ definition rest, HeadReader.read? progress tokens = some (definition, rest) ∧
        take ⟨definitions ++ [definition], .outside⟩ rest = .ok ⟨found, .outside⟩ := by
  induction tokens generalizing progress with
  | nil =>
    cases progress with
    | done definition =>
      rw [HeadReader.read?_done]
      constructor
      · intro h
        exact ⟨definition, [], rfl, h⟩
      · rintro ⟨_, _, heq, h⟩
        obtain ⟨rfl, rfl⟩ := Prod.mk.inj (Option.some.inj heq)
        exact h
    | more reader =>
      constructor
      · intro h
        have hreader : reader = .outside := (Parser.mk.inj (Except.ok.inj h)).2
        exact absurd (congrArg Progress.more hreader) (hinside.resolve_right (by simp))
      · rintro ⟨_, _, heq, _⟩
        exact absurd heq (by simp [HeadReader.read?, Progress.read?])
  | cons token tokens ih =>
    cases progress with
    | done definition =>
      rw [HeadReader.read?_done]
      constructor
      · intro h
        exact ⟨definition, _, rfl, h⟩
      · rintro ⟨_, _, heq, h⟩
        obtain ⟨rfl, rfl⟩ := Prod.mk.inj (Option.some.inj heq)
        exact h
    | more reader =>
      rw [behind, take_cons, HeadReader.read?_cons]
      cases hnext : reader.step ⟨{}, token⟩ with
      | none => simp
      | some next => exact ih (.inl (HeadReader.effect_step hnext).ne_outside)

/-- Taking tokens up to the end reads one definition off them and takes the others behind it. -/
theorem take_iff {reader : HeadReader} (hinside : reader ≠ .outside ∨ tokens ≠ []) :
    take ⟨definitions, reader⟩ tokens = .ok ⟨found, .outside⟩ ↔
      ∃ definition rest, HeadReader.read? (.more reader) tokens = some (definition, rest) ∧
        take ⟨definitions ++ [definition], .outside⟩ rest = .ok ⟨found, .outside⟩ := by
  have hprogress : (.more reader : Progress HeadReader Definition) ≠ .more .outside ∨
      tokens ≠ [] := by
    simpa using hinside
  exact take_behind_iff hprogress

/-- The definitions that are complete do not matter to those behind them. -/
theorem exists_behind (h : take ⟨definitions, .outside⟩ tokens = .ok ⟨found, .outside⟩) :
    ∃ more, found = definitions ++ more ∧
      ∀ others, take ⟨others, .outside⟩ tokens = .ok ⟨others ++ more, .outside⟩ := by
  have hbehind (earlier : List Definition) :
      take ⟨earlier, .outside⟩ tokens =
        (take {} tokens).map fun later => ⟨earlier ++ later.definitions, later.reader⟩ := by
    have hrun := run_behind earlier {} (tokens.map fun token => ⟨{}, token⟩)
    rw [List.append_nil] at hrun
    exact hrun
  rw [hbehind] at h
  cases hmore : take {} tokens with
  | error stop =>
    rw [hmore] at h
    exact absurd h (by simp [Except.map])
  | ok later =>
    rw [hmore] at h
    obtain ⟨more, reader⟩ := later
    obtain ⟨rfl, rfl⟩ := Parser.mk.inj (Except.ok.inj h)
    exact ⟨more, rfl, fun others => by rw [hbehind, hmore]; rfl⟩

/-- Tokens that begin with a default value declare its variable. -/
theorem take_variableDefault_iff {head : OperationDefinition} {name : String} {type : TypeSyntax} :
    take ⟨definitions, .variableDefault head name type .start⟩ tokens = .ok ⟨found, .outside⟩ ↔
      ∃ value rest, ValueReader.read? (.more .start) tokens = some (value, rest) ∧
        take ⟨definitions, .dollar (head.declare ⟨name, type, some value⟩) false⟩ rest =
          .ok ⟨found, .outside⟩ := by
  rw [take_iff (.inl (by simp))]
  simp only [take_iff (.inl (HeadReader.noConfusion : HeadReader.dollar _ _ ≠ .outside)),
    HeadReader.read?_variableDefault, Option.bind_eq_some_iff, Prod.exists]
  constructor
  · rintro ⟨definition, rest, ⟨value, behind, hvalue, hread⟩, htake⟩
    exact ⟨value, behind, hvalue, definition, rest, hread, htake⟩
  · rintro ⟨value, behind, hvalue, definition, rest, hread, htake⟩
    exact ⟨definition, rest, ⟨value, behind, hvalue, hread⟩, htake⟩

end Parser

/-! ## Definitions with other variables in front -/

/-- A definition with more variables in front of its own. -/
def OperationDefinition.behind (earlier : List VariableDefinition)
    (definition : OperationDefinition) :
    OperationDefinition :=
  { definition with declared := earlier ++ definition.declared }

/-- Variables in front do not change what a reader adds. -/
theorem OperationDefinition.isUniform_behind (earlier : List VariableDefinition) :
    IsUniform (behind earlier) where
  declare definition v := by simp [behind, OperationDefinition.declare]
  rename _ _ := rfl

/--
What stands behind the variables of a definition does not depend on these: only the variables
themselves are found in the definition.
-/
theorem exists_take_dollar {definitions found : List Definition} {head : OperationDefinition}
    {v : VariableDefinition} {tokens : List Token}
    (h : Parser.take ⟨definitions, .dollar (head.declare v) false⟩ tokens = .ok ⟨found, .outside⟩) :
    ∃ (definition : OperationDefinition) (more : List Definition),
      found = definitions ++ .operation (definition.behind (head.declared ++ [v])) :: more ∧
      ∀ other, Parser.take ⟨definitions, .dollar (head.declare other) false⟩ tokens =
        .ok ⟨definitions ++ .operation (definition.behind (head.declared ++ [other])) :: more,
          .outside⟩ := by
  let base : HeadReader := .dollar { head with declared := [] } false
  have hbase (other : VariableDefinition) :
      Progress.more (.dollar (head.declare other) false) =
        HeadReader.mapProgress (OperationDefinition.behind (head.declared ++ [other]))
          (.more base) := by
    simp [base, HeadReader.mapProgress, Progress.map, HeadReader.mapHead,
      OperationDefinition.behind, OperationDefinition.declare]
  have hread (other : VariableDefinition) :
      HeadReader.read? (.more (.dollar (head.declare other) false)) tokens =
        (HeadReader.read? (.more base) tokens).map fun found =>
          (found.1.mapOperation (OperationDefinition.behind (head.declared ++ [other])),
            found.2) := by
    rw [hbase]
    exact HeadReader.read?_mapProgress (OperationDefinition.isUniform_behind _)
      (by simp [base]) tokens
  obtain ⟨definition, rest, hdefinition, hrest⟩ := (Parser.take_iff (.inl (by simp))).1 h
  obtain ⟨more, rfl, hmore⟩ := Parser.exists_behind hrest
  have hbegins := HeadReader.declared_of_read? hdefinition
  rw [hread] at hdefinition
  obtain ⟨⟨own, rest'⟩, hown, heq⟩ := Option.map_eq_some_iff.1 hdefinition
  obtain ⟨rfl, rfl⟩ := Prod.mk.inj heq
  cases own with
  | fragment name =>
    have hlength := hbegins.length_le
    simp [HeadReader.declaredBy, HeadReader.declared, OperationDefinition.declare,
      Definition.mapOperation, Definition.declared] at hlength
  | operation definition =>
    refine ⟨definition, more, by simp [Definition.mapOperation], fun other => ?_⟩
    refine (Parser.take_iff (.inl (by simp))).2 ⟨_, rest', by rw [hread, hown]; rfl, ?_⟩
    rw [hmore]
    simp [Definition.mapOperation]

end QueryHooks.Document
