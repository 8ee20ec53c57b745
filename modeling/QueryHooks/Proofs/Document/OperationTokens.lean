import QueryHooks.Proofs.Document.Segments
import QueryHooks.Proofs.Document.TypeText

/-!
# Tokens of operations

The tokens in which an operation is written are read as its definition.  Where they stand only
decides the position of that definition.

Main results:

- Definition `HeadReader.Takes`: some tokens take the parser from one reader to the next.
- Theorem `HeadReader.takes_variables`: the variables of an operation are declared in order.
- Theorem `Parser.run_tokens`: the tokens of operations are read as their definitions.
- Theorem `Operation.nestsWithin_tokens`: an operation nests one bracket deeper than its types.
-/

namespace QueryHooks

open Document (NestsWithin OperationDefinition Token VariableDefinition)

/-! ## Variables and operations as definitions -/

/-- The definition of a variable without a default value. -/
def Variable.definition (v : Variable) : VariableDefinition :=
  ⟨v.name, v.type.toSyntax, none⟩

/-- An operation definition with more variables. -/
def Document.OperationDefinition.declareAll (definition : OperationDefinition)
    (declared : List VariableDefinition) : OperationDefinition :=
  { definition with declared := definition.declared ++ declared }

/-- The definition of an operation that stands at a position. -/
def Operation.definition (operation : Operation) (position : Document.Position) :
    OperationDefinition where
  position := position
  kind := operation.kind
  name? := some operation.name
  declared := operation.declared.map Variable.definition

@[simp]
theorem Document.OperationDefinition.declareAll_nil (definition : OperationDefinition) :
    definition.declareAll [] = definition := by
  simp [declareAll]

/-- Variables are declared one after the other. -/
theorem Document.OperationDefinition.declareAll_cons (definition : OperationDefinition)
    (v : VariableDefinition) (declared : List VariableDefinition) :
    definition.declareAll (v :: declared) = (definition.declare v).declareAll declared := by
  simp [declareAll, declare]

/-! ## Tokens -/

/-- The tokens that declare a variable. -/
def Variable.tokens (v : Variable) : List Token :=
  .punctuator '$' :: .name v.name.toList :: .punctuator ':' :: v.type.tokens

/-- The tokens of the variables of an operation, which are left out if there are none. -/
def Variable.listTokens : List Variable → List Token
  | [] => []
  | v :: vs => .punctuator '(' :: (v :: vs).flatMap tokens ++ [.punctuator ')']

/-- The tokens of the selection of a single field. -/
def selectionTokens : List Token :=
  [.punctuator '\x7b', .name ['f'], .punctuator '\x7d']

/-- The tokens of an operation that selects a single field. -/
def Operation.tokens (operation : Operation) : List Token :=
  .name operation.kind.keyword.toList :: .name operation.name.toList ::
    (Variable.listTokens operation.declared ++ selectionTokens)

/-- The tokens of variables nest one bracket deeper than their types. -/
theorem Variable.nestsWithin_listTokens {depth : Nat} {vs : List Variable}
    (h : ∀ v ∈ vs, v.type.levels ≤ depth) : NestsWithin (depth + 1) (listTokens vs) := by
  have hvariables : NestsWithin depth (vs.flatMap tokens) := by
    apply NestsWithin.flatMap
    intro v hv
    have htype := v.type.nestsWithin_tokens.mono (h v hv)
    have hcolon := htype.cons_punctuator (by decide : ¬Document.opensBracket ':') (by decide)
    exact hcolon.cons_name.cons_punctuator (by decide) (by decide)
  cases vs with
  | nil => exact .nil
  | cons v vs => exact hvariables.bracket (by decide) (by decide)

/-- An operation nests one bracket deeper than its types. -/
theorem Operation.nestsWithin_tokens {depth : Nat} {operation : Operation}
    (h : ∀ v ∈ operation.declared, v.type.levels ≤ depth) :
    NestsWithin (depth + 1) operation.tokens := by
  have hlist := Variable.nestsWithin_listTokens h
  have hfield : NestsWithin depth [.name ['f']] := NestsWithin.nil.cons_name
  have hselection : NestsWithin (depth + 1) selectionTokens :=
    hfield.bracket (by decide) (by decide)
  exact (hlist.append hselection).cons_name.cons_name

namespace Document

/-! ## Runs over tokens -/

/-- What the parser is behind a lexeme that gives `progress`. -/
def Parser.behind (definitions : List Definition) : Progress HeadReader Definition → Parser
  | .more reader => ⟨definitions, reader⟩
  | .done definition => ⟨definitions ++ [definition], .outside⟩

namespace HeadReader

/-- Lexemes with these tokens take the parser from a reader to `progress`, wherever they stand. -/
def Takes (reader : HeadReader) (tokens : List Token) (progress : Progress HeadReader Definition) :
    Prop :=
  ∀ definitions lexemes, lexemes.map Lexeme.token = tokens →
    Parser.run ⟨definitions, reader⟩ lexemes = .ok (Parser.behind definitions progress)

variable {reader between : HeadReader} {progress : Progress HeadReader Definition}
  {token : Token} {tokens later : List Token}

theorem Takes.nil : Takes reader [] (.more reader) := by
  intro definitions lexemes hlexemes
  rw [List.map_eq_nil_iff.1 hlexemes]
  rfl

/-- A token that is taken at every position is a run. -/
theorem Takes.single (h : ∀ position, reader.step ⟨position, token⟩ = some progress) :
    Takes reader [token] progress := by
  intro definitions lexemes hlexemes
  obtain ⟨⟨position, _⟩, rfl, rfl⟩ := List.map_eq_singleton_iff.1 hlexemes
  rw [Parser.run_singleton]
  cases progress with
  | more later => exact Parser.step_of_more (h position)
  | done definition => exact Parser.step_of_done (h position)

/-- Runs can be put one behind the other. -/
theorem Takes.append (h : Takes reader tokens (.more between))
    (hlater : Takes between later progress) :
    Takes reader (tokens ++ later) progress := by
  intro definitions lexemes hlexemes
  obtain ⟨first, second, rfl, hfirst, hsecond⟩ := List.map_eq_append_iff.1 hlexemes
  rw [Parser.run_append, h definitions first hfirst]
  exact hlater definitions second hsecond

/-- A run may begin with one token more. -/
theorem Takes.cons (h : ∀ position, reader.step ⟨position, token⟩ = some (.more between))
    (hlater : Takes between tokens progress) : Takes reader (token :: tokens) progress :=
  (Takes.single h).append hlater

/-! ## Parts of an operation -/

/-- The keyword of an operation begins its definition. -/
theorem step_keyword (position : Position) (kind : Operation.Kind) :
    outside.step ⟨position, .name kind.keyword.toList⟩ =
      some (.more (operationName (.opening position kind))) := by
  have hfragment : kind.keyword.toList ≠ "fragment".toList := by
    cases kind <;> decide
  have hkind : kindOfKeyword? kind.keyword.toList = some kind := kindOfKeyword?_eq_some_iff.2 rfl
  rw [step, begin?]
  simp only [if_neg hfragment, hkind, Option.map_some]

/-- While a type is read, the parser does what the reader of the type does. -/
theorem takes_type {definition : OperationDefinition} {name : String} {start later : TypeReader}
    (h : start.run tokens = some later) :
    Takes (variableType definition name start) tokens
      (.more (variableType definition name later)) := by
  induction tokens generalizing start with
  | nil =>
    rw [← Option.some.inj h]
    exact .nil
  | cons token tokens ih =>
    rw [TypeReader.run, List.foldlM_cons] at h
    obtain ⟨next, hnext, hrest⟩ := Option.bind_eq_some_iff.1 h
    refine Takes.cons ?_ (ih hrest)
    intro position
    simp [step, hnext]

/-- A variable is read where its dollar sign may stand, up to the end of its type. -/
theorem takes_variable {definition : OperationDefinition} (v : Variable)
    (hdollar : ∀ position, reader.step ⟨position, .punctuator '$'⟩ =
      some (.more (variableName definition))) :
    Takes reader v.tokens (.more (variableType definition v.name
      (.closing 0 v.type.toSyntax !v.type.nullable))) := by
  refine Takes.cons hdollar ?_
  have hname (position : Position) :
      (variableName definition).step ⟨position, .name v.name.toList⟩ =
        some (.more (variableColon definition v.name)) := by
    simp [step]
  refine Takes.cons hname ?_
  have hcolon (position : Position) :
      (variableColon definition v.name).step ⟨position, .punctuator ':'⟩ =
        some (.more (variableType definition v.name .start)) := rfl
  exact Takes.cons hcolon (takes_type (TypeReader.run_tokens 0 v.type))

/-- Behind the type of a variable, that variable and those that follow are declared in order. -/
theorem takes_variables (definition : OperationDefinition) (name : String) (type : TypeSyntax)
    (marked : Bool) (vs : List Variable) :
    Takes (variableType definition name (.closing 0 type marked))
      (vs.flatMap Variable.tokens ++ [.punctuator ')'])
      (.more (body (.operation (definition.declareAll
        (⟨name, type, none⟩ :: vs.map Variable.definition))) SelectionReader.start)) := by
  induction vs generalizing definition name type marked with
  | nil =>
    refine Takes.single ?_
    intro position
    rw [List.map_nil, OperationDefinition.declareAll_cons, OperationDefinition.declareAll_nil]
    cases marked <;> rfl
  | cons v vs ih =>
    have hdollar (position : Position) :
        (variableType definition name (.closing 0 type marked)).step ⟨position, .punctuator '$'⟩ =
          some (.more (variableName (definition.declare ⟨name, type, none⟩))) := by
      cases marked <;> rfl
    rw [List.flatMap_cons, List.append_assoc, OperationDefinition.declareAll_cons]
    exact (takes_variable v hdollar).append (ih _ _ _ _)

/-- A selection is read where its brace may stand, and it completes the definition. -/
theorem takes_selection {definition : Definition}
    (hbrace : ∀ position, reader.step ⟨position, .punctuator '\x7b'⟩ =
      some (.more (body definition (1, .selection true)))) :
    Takes reader selectionTokens (.done definition) := by
  refine Takes.cons hbrace ?_
  have hfield (position : Position) :
      (body definition (1, .selection true)).step ⟨position, .name ['f']⟩ =
        some (.more (body definition (1, .fieldAlias))) := rfl
  exact Takes.cons hfield (Takes.single fun _ => rfl)

/-- Behind the name of an operation, its variables and its selection complete it. -/
theorem takes_variableList (definition : OperationDefinition) (vs : List Variable) :
    Takes (variableList definition) (Variable.listTokens vs ++ selectionTokens)
      (.done (.operation (definition.declareAll (vs.map Variable.definition)))) := by
  cases vs with
  | nil =>
    rw [List.map_nil, OperationDefinition.declareAll_nil]
    exact takes_selection fun _ => rfl
  | cons v vs =>
    have hopen (position : Position) :
        (variableList definition).step ⟨position, .punctuator '('⟩ =
          some (.more (dollar definition true)) := rfl
    have hfirst : Takes (dollar definition true) v.tokens _ := takes_variable v fun _ => rfl
    have hlist := hfirst.append (takes_variables definition v.name v.type.toSyntax _ vs)
    rw [← List.append_assoc, ← List.flatMap_cons] at hlist
    exact (Takes.cons hopen hlist).append (takes_selection fun _ => rfl)

end HeadReader

/-! ## Operations -/

namespace Parser

/-- The tokens of an operation are read as its definition, at the position of the first of them. -/
theorem run_operation (definitions : List Definition) (operation : Operation)
    {lexemes : List Lexeme}
    (hlexemes : lexemes.map Lexeme.token = operation.tokens) :
    ∃ position, run ⟨definitions, .outside⟩ lexemes =
      .ok ⟨definitions ++ [.operation (operation.definition position)], .outside⟩ := by
  obtain ⟨⟨position, _⟩, rest, rfl, rfl, hrest⟩ := List.map_eq_cons_iff.1 hlexemes
  refine ⟨position, ?_⟩
  let opening := OperationDefinition.opening position operation.kind
  let named := { opening with name? := some operation.name }
  have hkeyword : HeadReader.outside.step ⟨position, .name operation.kind.keyword.toList⟩ =
      some (.more (.operationName opening)) := HeadReader.step_keyword position operation.kind
  have hname (position : Position) :
      (HeadReader.operationName opening).step ⟨position, .name operation.name.toList⟩ =
        some (.more (.variableList named)) := by
    simp [HeadReader.step, named]
  have hlater := HeadReader.Takes.cons hname
    (HeadReader.takes_variableList named operation.declared)
  rw [run, List.foldlM_cons, step_of_more hkeyword]
  exact hlater definitions rest hrest

/-- The tokens of operations are read as their definitions, in order. -/
theorem run_tokens (definitions : List Definition) (operations : List Operation)
    {lexemes : List Lexeme}
    (hlexemes : lexemes.map Lexeme.token = operations.flatMap Operation.tokens) :
    ∃ found, run ⟨definitions, .outside⟩ lexemes =
        .ok ⟨definitions ++ found.map .operation, .outside⟩ ∧
      List.Forall₂ (fun operation definition => ∃ position, definition =
        operation.definition position)
        operations found := by
  induction operations generalizing definitions lexemes with
  | nil =>
    rw [List.flatMap_nil, List.map_eq_nil_iff] at hlexemes
    exact ⟨[], by simp [hlexemes], .nil⟩
  | cons operation operations ih =>
    rw [List.flatMap_cons] at hlexemes
    obtain ⟨first, later, rfl, hfirst, hlater⟩ := List.map_eq_append_iff.1 hlexemes
    obtain ⟨position, hrun⟩ := run_operation definitions operation hfirst
    obtain ⟨found, hfound, hall⟩ :=
      ih (definitions ++ [.operation (operation.definition position)]) hlater
    refine ⟨operation.definition position :: found, ?_, .cons ⟨position, rfl⟩ hall⟩
    rw [run_append, hrun]
    change run _ later = _
    simpa using hfound

end Parser

end Document

end QueryHooks
