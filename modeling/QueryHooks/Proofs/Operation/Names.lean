import QueryHooks.Proofs.Operation.Joining

/-!
# Names of operations

An operation of a document is named by a token of it, so its name is a letter or an underscore
followed by letters, digits and underscores.  No other token changes the name of the definition that
is read.

Main results:

- Theorem `Token.isName_of_read`: what is read as a name is one.
- Theorem `HeadReader.name?_of_step`: a lexeme keeps the name of the definition, or it is that name.
- Theorem `isLoaded_of_loadText`: the operations of a document have names in this sense.
-/

namespace QueryHooks

namespace Document

/-! ## Tokens -/

/-- What is read as a name is one. -/
theorem Token.isName_of_read {text rest chars : List Char}
    (h : read text = some (.name chars, rest)) : IsName chars := by
  match text with
  | [] => exact absurd h (by simp [read])
  | c :: text =>
    by_cases hquote : c = '"'
    · subst hquote
      by_cases hblock : ∃ tail, text = '"' :: '"' :: tail
      · obtain ⟨tail, rfl⟩ := hblock
        simp [read] at h
      · rw [read.eq_4 _ fun tail htail => hblock ⟨tail, htail⟩] at h
        simp at h
    by_cases hdot : c = '.'
    · subst hdot
      by_cases hthree : ∃ tail, text = '.' :: '.' :: tail
      · obtain ⟨tail, rfl⟩ := hthree
        simp [read] at h
      · rw [read_dot_eq_none fun tail htail => hthree ⟨tail, htail⟩] at h
        exact absurd h (by simp)
    · rw [read_of_ne hdot hquote] at h
      split at h
      · simp at h
      · split at h
        · rename_i hstart
          obtain ⟨htoken, _⟩ := Prod.mk.inj (Option.some.inj h)
          obtain rfl := Token.name.inj htoken
          refine ⟨by simpa [isNameStart] using hstart, ?_⟩
          intro d hd
          have hpart := List.all_eq_true.1 List.all_takeWhile d hd
          simpa [isNamePart] using hpart
        · repeat' split at h
          all_goals simp at h

/-- A token that is a name is spelled as one. -/
def Token.IsSpelled (token : Token) : Prop :=
  ∀ chars, token = .name chars → IsName chars

/-- Every name that is scanned from a text is spelled as one. -/
theorem isSpelled_of_mem_scanFrom (position : Position) (text : List Char) :
    ∀ lexeme ∈ (scanFrom position text).lexemes, lexeme.token.IsSpelled := by
  fun_induction scanFrom position text with
  | case1 => simp
  | case2 => simp
  | case3 position text here hne token rest hread behind ih =>
    rw [List.forall_mem_cons]
    refine ⟨?_, ih⟩
    rintro chars rfl
    exact Token.isName_of_read hread

/-! ## Readers -/

/-- The name of the operation that a definition defines, if it has one. -/
def Definition.name? (definition : Definition) : Option String :=
  definition.operation?.bind OperationDefinition.name?

namespace HeadReader

/-- The name of the operation whose definition is read, if it is known. -/
def name? : HeadReader → Option String
  | operationName definition | variableList definition | dollar definition _ |
    variableName definition | variableColon definition _ | variableType definition _ _ |
    variableDefault definition _ _ _ => definition.name?
  | body definition _ => definition.name?
  | outside | fragmentName | fragmentOn _ | fragmentType _ => none

/-- The name of the operation that comes of a token. -/
def progressName? : Progress HeadReader Definition → Option String
  | .more reader => reader.name?
  | .done definition => definition.name?

variable {token : Token} {progress : Progress HeadReader Definition}

/-- A selection does not change the name of its operation. -/
theorem name?_of_stepBody {definition : Definition} {place : SelectionReader.Place}
    (h : stepBody definition place token = some progress) :
    progressName? progress = definition.name? := by
  obtain ⟨result, _, rfl⟩ := Option.map_eq_some_iff.1 h
  cases result <;> rfl

variable {definition : OperationDefinition}

/-- What stands behind the name of an operation does not change it. -/
theorem name?_of_stepVariables (h : stepVariables definition token = some progress) :
    progressName? progress = definition.name? := by
  unfold stepVariables at h
  split at h
  · rw [← Option.some.inj h]
    rfl
  · exact name?_of_stepBody h

/-- The list of variables does not change it. -/
theorem name?_of_stepDollar {first : Bool} (h : stepDollar definition first token = some progress) :
    progressName? progress = definition.name? := by
  unfold stepDollar at h
  split at h
  · rw [← Option.some.inj h]
    rfl
  · split at h
    · exact absurd h (by simp)
    · rw [← Option.some.inj h]
      rfl
  · exact absurd h (by simp)

/-- What stands behind the type of a variable does not change it. -/
theorem name?_of_stepAfterType {name : String} {type : TypeSyntax}
    (h : stepAfterType definition name type token = some progress) :
    progressName? progress = definition.name? := by
  unfold stepAfterType at h
  split at h
  · rw [← Option.some.inj h]
    rfl
  · have hdollar := name?_of_stepDollar h
    exact hdollar

/-- A lexeme keeps the name of the operation that is read, unless it is that name. -/
theorem name?_of_step {reader : HeadReader} {lexeme : Lexeme}
    (h : reader.step lexeme = some progress) :
    progressName? progress = reader.name? ∨
      ∃ chars, lexeme.token = .name chars ∧
        progressName? progress = some (String.ofList chars) := by
  unfold step at h
  split at h
  · left
    obtain ⟨later, hbegin, rfl⟩ := Option.map_eq_some_iff.1 h
    unfold begin? at hbegin
    split at hbegin
    · split at hbegin
      · rw [← Option.some.inj hbegin]
        rfl
      · obtain ⟨kind, _, rfl⟩ := Option.map_eq_some_iff.1 hbegin
        rfl
    · rw [← Option.some.inj hbegin]
      rfl
    · exact absurd hbegin (by simp)
  · rename_i chars htoken
    rw [← Option.some.inj h]
    exact .inr ⟨chars, htoken, rfl⟩
  · exact .inl (name?_of_stepVariables h)
  · exact .inl (name?_of_stepVariables h)
  · exact .inl (name?_of_stepDollar h)
  · rw [← Option.some.inj h]
    exact .inl rfl
  · rw [← Option.some.inj h]
    exact .inl rfl
  · left
    split at h
    · rw [← Option.some.inj h]
      rfl
    · obtain ⟨type, _, hafter⟩ := Option.bind_eq_some_iff.1 h
      exact name?_of_stepAfterType hafter
  · obtain ⟨result, _, rfl⟩ := Option.map_eq_some_iff.1 h
    cases result <;> exact .inl rfl
  · rw [← Option.some.inj h]
    exact .inl rfl
  · split at h
    · rw [← Option.some.inj h]
      exact .inl rfl
    · exact absurd h (by simp)
  · rw [← Option.some.inj h]
    exact .inl rfl
  · exact .inl (name?_of_stepBody h)
  · exact absurd h (by simp)

end HeadReader

/-! ## Runs of the parser -/

/-- Every operation that a parser has read has a name that is one, if it has a name. -/
structure Parser.IsNamed (parser : Parser) : Prop where
  definitions : ∀ definition ∈ parser.definitions, ∀ name ∈ definition.name?, IsName name.toList
  reader : ∀ name ∈ parser.reader.name?, IsName name.toList

/-- Each lexeme that is spelled as one keeps the names of the definitions spelled as names. -/
theorem Parser.IsNamed.step {parser later : Parser} {lexeme : Lexeme} (h : parser.IsNamed)
    (hspelled : lexeme.token.IsSpelled) (hstep : parser.step lexeme = .ok later) :
    later.IsNamed := by
  have hname (progress : Progress HeadReader Definition)
      (hreader : parser.reader.step lexeme = some progress) :
      ∀ name ∈ HeadReader.progressName? progress, IsName name.toList := by
    intro name hname
    rcases HeadReader.name?_of_step hreader with hkept | ⟨chars, htoken, hnew⟩
    · exact h.reader name (hkept ▸ hname)
    · rw [hnew] at hname
      obtain rfl := Option.some.inj hname
      rw [String.toList_ofList]
      exact hspelled chars htoken
  rcases step_cases hstep with ⟨reader, hreader, rfl⟩ | ⟨definition, hreader, rfl⟩
  · exact ⟨h.definitions, hname _ hreader⟩
  · refine ⟨?_, by simp [HeadReader.name?]⟩
    rw [List.forall_mem_append, List.forall_mem_singleton]
    exact ⟨h.definitions, hname _ hreader⟩

/-- So does a run over many lexemes. -/
theorem Parser.IsNamed.run {parser later : Parser} {lexemes : List Lexeme} (h : parser.IsNamed)
    (hspelled : ∀ lexeme ∈ lexemes, lexeme.token.IsSpelled)
    (hrun : parser.run lexemes = .ok later) :
    later.IsNamed := by
  induction lexemes generalizing parser with
  | nil =>
    rw [← Except.ok.inj hrun]
    exact h
  | cons lexeme lexemes ih =>
    obtain ⟨between, hstep, hlater⟩ := run_cons_eq_ok_iff.1 hrun
    obtain ⟨hlexeme, hlexemes⟩ := List.forall_mem_cons.1 hspelled
    exact ih (h.step hlexeme hstep) hlexemes hlater

/-- The operations that a document defines have names that are ones, if they have names. -/
theorem isName_of_parse {text : String} {definitions : List Definition}
    (h : parse text = .ok definitions) :
    ∀ definition ∈ definitions, ∀ name ∈ definition.name?, IsName name.toList := by
  obtain ⟨_, lexemes, ending, hscan, _, hrun⟩ := parse_eq_ok_iff.1 h
  have hspelled : ∀ lexeme ∈ lexemes, lexeme.token.IsSpelled := by
    have hall := isSpelled_of_mem_scanFrom {} text.toList
    rw [hscan] at hall
    exact hall
  have hempty : Parser.IsNamed {} := ⟨by simp, by simp [HeadReader.name?]⟩
  exact (hempty.run hspelled hrun).definitions

end Document

/-! ## Loaded operations -/

/--
An operation that is loaded has a name, and its types have their default names between the affixes.
-/
structure Operation.IsLoaded (affixes : Affixes) (operation : Operation) : Prop where
  isName : Document.IsName operation.name.toList
  resultType_eq : operation.resultType = affixes.wrap (typeName operation.kind operation.name)
  variablesType_eq :
    operation.variablesType = affixes.wrap (variablesTypeName operation.kind operation.name)

/-- What a definition with a name gives is loaded. -/
theorem Operation.isLoaded_of_ofDefinition {affixes : Affixes} {path? : Option Path}
    {definition : Document.OperationDefinition} {operation : Operation}
    (hname : ∀ name ∈ definition.name?, Document.IsName name.toList)
    (h : ofDefinition affixes path? definition = .ok operation) : operation.IsLoaded affixes := by
  have hcarries := carries_of_ofDefinition h
  refine ⟨hname _ hcarries.name_eq, ?_, ?_⟩
  · rw [hcarries.kind_eq]
    exact hcarries.resultType_eq
  · rw [hcarries.kind_eq]
    exact hcarries.variablesType_eq

/-- The operations of a document have names that are ones, and their types are named after them. -/
theorem isLoaded_of_loadText {affixes : Affixes} {path? : Option Path} {text : String}
    {operations : List Operation} (h : loadText affixes path? text = .ok operations) :
    ∀ operation ∈ operations, operation.IsLoaded affixes := by
  intro operation hoperation
  obtain ⟨definitions, hparse, hgiven⟩ := loadText_eq_ok_iff.1 h
  have hmem : Except.ok operation ∈ operations.map (Except.ok : _ → Except LoadError Operation) :=
    List.mem_map_of_mem hoperation
  rw [← hgiven, List.mem_map] at hmem
  obtain ⟨declared, hdeclared, hgives⟩ := hmem
  obtain ⟨definition, hdefinition, hoperation?⟩ := List.mem_filterMap.1 hdeclared
  refine Operation.isLoaded_of_ofDefinition ?_ hgives
  intro name hname
  refine Document.isName_of_parse hparse definition hdefinition name ?_
  rw [Document.Definition.name?, hoperation?]
  exact hname

end QueryHooks
