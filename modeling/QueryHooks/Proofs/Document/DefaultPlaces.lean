import QueryHooks.Proofs.Document.DefinitionReading
import QueryHooks.Proofs.Document.ReadingOff

/-!
# Places of default values

Each default value of a document stands behind an equals sign among the tokens of the document.  Its
tokens are read as a value by themselves, so they can be replaced by the tokens of another value,
and then only the default value of that variable differs in what is parsed.

Main results:

- Definition `DefaultPlace`: a default value among the tokens that a parser takes.
- Theorem `exists_default_place`: each default value of a document stands at a place among its
  tokens.
- Theorem `DefaultPlace.take_tokens_iff`: what is parsed where the tokens of a value stand at such a
  place.
- Theorem `DefaultPlace.exists_room`: a default value is formed, and there is room for its tokens in
  its place.
-/

namespace QueryHooks.Document

/-! ## Default values in a document -/

/-- A default value among the tokens that a parser takes. -/
structure DefaultPlace (parser : Parser) (tokens : List Token) where
  /-- The tokens in front of the equals sign. -/
  lead : List Token
  /-- The tokens of the default value. -/
  middle : List Token
  /-- The tokens behind it. -/
  later : List Token
  /-- The definitions in front of the one with the variable. -/
  definitions : List Definition
  /-- The definition with the variable, as far as it was read. -/
  head : OperationDefinition
  /-- The name of the variable. -/
  name : String
  /-- The type of the variable. -/
  type : TypeSyntax
  value : Value
  tokens_eq : tokens = lead ++ .punctuator '=' :: (middle ++ later)
  take_lead : parser.take (lead ++ [.punctuator '=']) =
    .ok ⟨definitions, .variableDefault head name type .start⟩
  read_value : ValueReader.read? (.more .start) middle = some (value, [])

namespace DefaultPlace

/-- A place of a default value behind tokens that are taken before. -/
def behind {parser later : Parser} {taken tokens : List Token}
    (htake : parser.take taken = .ok later)
    (place : DefaultPlace later tokens) : DefaultPlace parser (taken ++ tokens) :=
  { place with
    lead := taken ++ place.lead
    tokens_eq := by rw [List.append_assoc, ← place.tokens_eq]
    take_lead := by
      rw [List.append_assoc, Parser.take_append, htake]
      exact place.take_lead }

end DefaultPlace

namespace HeadReader

/-- The variable that is declared next is found behind those that were declared before. -/
theorem eq_of_prefix_concat {declared all : List VariableDefinition} {v found : VariableDefinition}
    (hbegins : declared ++ [v] <+: all) (hfound : all[declared.length]? = some found) :
    found = v := by
  obtain ⟨later, rfl⟩ := hbegins
  simpa using hfound.symm

/--
The default value of the variable with an index is still to come: that variable is not declared yet,
and the default value that is being read, if there is one, is that of a variable in front of it.
-/
structure DefaultAhead (index : Nat) (progress : Progress HeadReader Definition) : Prop where
  declared_le : (declaredBy progress).length ≤ index
  declared_lt : ∀ head name type reader, progress = .more (variableDefault head name type reader) →
    head.declared.length < index

/-- A default value is still ahead where none is read and its variable is not declared yet. -/
theorem DefaultAhead.of_isPlain {index : Nat} {reader : HeadReader} (hplain : reader.IsPlain)
    (h : reader.declared.length ≤ index) : DefaultAhead index (.more reader) := by
  refine ⟨h, ?_⟩
  rintro head name type reader ⟨⟩
  exact hplain.elim

/-- What is read completely has not declared a variable whose default value is ahead. -/
theorem DefaultAhead.getElem?_of_done {index : Nat} {found : Definition}
    (h : DefaultAhead index (.done found)) : found.declared[index]? = none :=
  List.getElem?_eq_none h.declared_le

variable {index : Nat} {v : VariableDefinition} {value : Value} {definition : Definition}
  (hv : definition.declared[index]? = some v) (hvalue : v.default? = some value)

include hv hvalue

/-- A default value that begins is that of the variable that is declared next. -/
theorem exists_middle {head : OperationDefinition} {name : String} {type : TypeSyntax}
    {tokens rest : List Token} (hindex : head.declared.length = index)
    (hread : read? (.more (variableDefault head name type .start)) tokens =
      some (definition, rest)) :
    ∃ middle later, tokens = middle ++ later ∧
      ValueReader.read? (.more .start) middle = some (value, []) := by
  rw [read?_variableDefault] at hread
  obtain ⟨⟨found, later⟩, hfound, hlater⟩ := Option.bind_eq_some_iff.1 hread
  have hbegins : head.declared ++ [⟨name, type, some found⟩] <+: definition.declared :=
    declared_of_read? hlater
  rw [← hindex] at hv
  rw [eq_of_prefix_concat hbegins hv] at hvalue
  obtain rfl := Option.some.inj hvalue
  obtain ⟨middle, rfl, hmiddle⟩ := Progress.exists_taken hfound
  have hread := hmiddle []
  rw [List.append_nil] at hread
  exact ⟨middle, later, rfl, hread⟩

/-- A token leaves the default value ahead, unless that is what the token begins. -/
theorem DefaultAhead.step_or_opens {reader : HeadReader} {token : Token}
    {next : Progress HeadReader Definition} {tokens rest : List Token}
    (h : DefaultAhead index (.more reader)) (hnext : reader.step ⟨{}, token⟩ = some next)
    (hread : read? next tokens = some (definition, rest)) :
    DefaultAhead index next ∨ ∃ head name type, head.declared.length = index ∧
      token = .punctuator '=' ∧ next = .more (variableDefault head name type .start) := by
  have hbegins := declared_of_read? hread
  cases effect_step hnext with
  | keeps hplain hdeclared => exact .inl (.of_isPlain hplain (hdeclared ▸ h.declared_le))
  | declares name type hplain hdeclared =>
    left
    apply DefaultAhead.of_isPlain hplain
    rw [declaredBy, hdeclared] at hbegins
    rw [hdeclared, List.length_append, List.length_singleton]
    refine Nat.lt_of_le_of_ne h.declared_le fun hlast => ?_
    rw [← hlast] at hv
    rw [eq_of_prefix_concat hbegins hv] at hvalue
    exact absurd hvalue (by simp)
  | opens head name type reader =>
    rcases Nat.eq_or_lt_of_le h.declared_le with hhere | hlt
    · exact .inr ⟨head, name, type, hhere, rfl, rfl⟩
    · refine .inl ⟨h.declared_le, ?_⟩
      rintro head name type reader ⟨⟩
      exact hlt
  | continues hstep =>
    have hlt := h.declared_lt _ _ _ _ rfl
    refine .inl ⟨h.declared_le, ?_⟩
    rintro head name type reader ⟨⟩
    exact hlt
  | @closes head name type reader found token hstep =>
    have hlt := h.declared_lt _ _ _ _ rfl
    refine .inl (DefaultAhead.of_isPlain (show IsPlain (dollar _ false) from trivial) ?_)
    change (head.declared ++ [_]).length ≤ index
    rw [List.length_append, List.length_singleton]
    exact hlt
  | completes hdeclared =>
    refine .inl ⟨?_, by simp⟩
    rw [declaredBy, hdeclared]
    exact h.declared_le

/-- Each default value of a definition that is read stands at a place among its tokens. -/
theorem exists_place {progress : Progress HeadReader Definition} {tokens rest : List Token}
    (hread : read? progress tokens = some (definition, rest)) (hahead : DefaultAhead index progress)
    (definitions : List Definition) :
    ∃ place : DefaultPlace (Parser.behind definitions progress) tokens,
      place.definitions = definitions ∧ place.head.declared.length = index ∧
        place.value = value := by
  induction tokens generalizing progress with
  | nil =>
    cases progress with
    | more reader => exact absurd hread (by simp [read?, Progress.read?])
    | done found =>
      obtain ⟨rfl, _⟩ := Prod.mk.inj (Option.some.inj hread)
      exact absurd (hv.symm.trans hahead.getElem?_of_done) (by simp)
  | cons token tokens ih =>
    cases progress with
    | done found =>
      obtain ⟨rfl, _⟩ := Prod.mk.inj (Option.some.inj hread)
      exact absurd (hv.symm.trans hahead.getElem?_of_done) (by simp)
    | more reader =>
      rw [read?_cons] at hread
      obtain ⟨next, hnext, hlater⟩ := Option.bind_eq_some_iff.1 hread
      have htake : (Parser.behind definitions (.more reader)).take [token] =
          .ok (Parser.behind definitions next) := by
        rw [Parser.behind, Parser.take_cons, hnext]
        rfl
      rcases hahead.step_or_opens hv hvalue hnext hlater with
        hahead | ⟨head, name, type, hhere, rfl, rfl⟩
      · obtain ⟨place, hplace⟩ := ih hlater hahead
        exact ⟨place.behind htake, hplace⟩
      · obtain ⟨middle, later, rfl, hmiddle⟩ := exists_middle hv hvalue hhere hlater
        exact ⟨⟨[], middle, later, definitions, head, name, type, value, rfl, htake, hmiddle⟩, rfl,
          hhere, rfl⟩

end HeadReader

/-! ## Documents -/

/-- Each default value of a document stands at a place among its tokens. -/
theorem exists_default_place {definitions found : List Definition} {tokens : List Token}
    (htake : Parser.take ⟨definitions, .outside⟩ tokens = .ok ⟨found, .outside⟩)
    {position index : Nat} {definition : Definition} {v : VariableDefinition} {value : Value}
    (hdefinition : found[position]? = some definition) (hposition : definitions.length ≤ position)
    (hv : definition.declared[index]? = some v) (hvalue : v.default? = some value) :
    ∃ place : DefaultPlace ⟨definitions, .outside⟩ tokens,
      place.definitions = found.take position ∧ place.head.declared.length = index ∧
        place.value = value := by
  induction hlength : tokens.length using Nat.strong_induction_on
    generalizing definitions tokens with
  | _ length ih =>
    by_cases hempty : tokens = []
    · subst hempty
      obtain rfl : definitions = found := (Parser.mk.inj (Except.ok.inj htake)).1
      rw [List.getElem?_eq_none hposition] at hdefinition
      exact absurd hdefinition (by simp)
    · obtain ⟨first, rest, hread, hrest⟩ :=
        (Parser.take_iff (.inr hempty)).1 htake
      have hbegins : definitions ++ [first] <+: found := Parser.prefix_of_take hrest
      rcases Nat.eq_or_lt_of_le hposition with rfl | hlt
      · -- The default value belongs to the first definition.
        obtain ⟨more, rfl⟩ := hbegins
        obtain rfl : first = definition := by simpa using hdefinition
        obtain ⟨place, hplace⟩ :=
          HeadReader.exists_place hv hvalue hread ⟨Nat.zero_le _, by simp⟩ definitions
        exact ⟨place, by simpa using hplace⟩
      · obtain ⟨taken, rfl, htaken⟩ := Progress.exists_taken hread
        have hne : taken ≠ [] := by
          rintro rfl
          exact absurd (htaken []) (by simp [Progress.read?])
        have hfirst : Parser.take ⟨definitions, .outside⟩ taken =
            .ok ⟨definitions ++ [first], .outside⟩ := by
          have hself := htaken []
          rw [List.append_nil] at hself
          exact (Parser.take_iff (.inr hne)).2 ⟨first, [], hself, rfl⟩
        have hshorter : rest.length < length := by
          have hpos := List.length_pos_iff.2 hne
          rw [← hlength, List.length_append]
          omega
        obtain ⟨place, hplace⟩ := ih rest.length hshorter hrest (by simpa using hlt) rfl
        exact ⟨place.behind hfirst, hplace⟩

namespace DefaultPlace

variable {tokens : List Token} (place : DefaultPlace {} tokens)

/-- The tokens of a document where the default value is replaced. -/
def replaced (middle : List Token) : List Token :=
  place.lead ++ .punctuator '=' :: (middle ++ place.later)

/-- The variable with another default value. -/
def variableWith (value : Value) : VariableDefinition :=
  ⟨place.name, place.type, some value⟩

/--
Behind the tokens in front of a default value, its variable is declared with the value that is read.
-/
theorem take_replaced_iff {found : List Definition} (middle : List Token) :
    Parser.take {} (place.replaced middle) = .ok ⟨found, .outside⟩ ↔
      ∃ value rest, ValueReader.read? (.more .start) (middle ++ place.later) = some (value, rest) ∧
        Parser.take ⟨place.definitions, .dollar (place.head.declare (place.variableWith value))
          false⟩ rest =
          .ok ⟨found, .outside⟩ := by
  have htokens : place.replaced middle =
      (place.lead ++ [.punctuator '=']) ++ (middle ++ place.later) := by simp [replaced]
  rw [htokens, Parser.take_append, place.take_lead]
  exact Parser.take_variableDefault_iff

/-- Behind the tokens of a default value, its variable is declared with that value. -/
theorem read_middle : ValueReader.read? (.more .start) (place.middle ++ place.later) =
    some (place.value, place.later) := by
  obtain ⟨taken, hmiddle, htaken⟩ := Progress.exists_taken place.read_value
  rw [List.append_nil] at hmiddle
  rw [hmiddle]
  exact htaken place.later

/-- Behind a default value its variable is declared, and the rest of the document is taken. -/
theorem take_later {found : List Definition}
    (htake : Parser.take {} tokens = .ok ⟨found, .outside⟩) :
    Parser.take ⟨place.definitions, .dollar (place.head.declare (place.variableWith place.value))
      false⟩
      place.later = .ok ⟨found, .outside⟩ := by
  have htokens : place.replaced place.middle = tokens := place.tokens_eq.symm
  rw [← htokens, place.take_replaced_iff, place.read_middle] at htake
  obtain ⟨_, _, hvalue, hlater⟩ := htake
  obtain ⟨rfl, rfl⟩ := Prod.mk.inj (Option.some.inj hvalue)
  exact hlater

/--
A document where a default value is replaced by the tokens of a value is parsed exactly if a value
is read from these tokens again, and then only the default value differs.
-/
theorem take_tokens_iff {room : Nat} {value : Value} (hformed : value.Formed room)
    {found : List Definition} (htake : Parser.take {} tokens = .ok ⟨found, .outside⟩) :
    ∃ (definition : OperationDefinition) (more : List Definition),
      let definitionsWith (value : Value) : List Definition :=
        place.definitions ++
          .operation (definition.behind (place.head.declared ++ [place.variableWith value])) :: more
      found = definitionsWith place.value ∧
      ∀ others, Parser.take {} (place.replaced value.tokens) = .ok ⟨others, .outside⟩ ↔
        ∃ another, value.reread = some another ∧ others = definitionsWith another := by
  obtain ⟨definition, more, hfound, hother⟩ := exists_take_dollar (place.take_later htake)
  refine ⟨definition, more, hfound, fun others => ?_⟩
  rw [take_replaced_iff, ValueReader.start, ValueReader.read?_tokens hformed]
  simp only [ValueReader.close, ValueReader.read?_done, Option.bind_eq_some_iff, Option.some.injEq,
    Prod.mk.injEq]
  constructor
  · rintro ⟨another, _, ⟨_, hreread, rfl, rfl⟩, htake⟩
    refine ⟨_, hreread, ?_⟩
    rw [hother] at htake
    exact (Parser.mk.inj (Except.ok.inj htake)).1.symm
  · rintro ⟨another, hreread, rfl⟩
    exact ⟨another, place.later, ⟨another, hreread, rfl, rfl⟩, hother _⟩

/-- A dollar sign or the end of the variables stands behind a default value. -/
theorem exists_later {found : List Definition}
    (htake : Parser.take {} tokens = .ok ⟨found, .outside⟩) :
    ∃ c others, place.later = .punctuator c :: others ∧ (c = '$' ∨ c = ')') := by
  have hlater := place.take_later htake
  cases hbehind : place.later with
  | nil =>
    rw [hbehind] at hlater
    exact absurd (Parser.mk.inj (Except.ok.inj hlater)).2 (by simp)
  | cons token others =>
    rw [hbehind, Parser.take_cons] at hlater
    split at hlater
    · exact absurd hlater (by simp)
    · rename_i progress hstep
      change HeadReader.stepDollar _ false token = some progress at hstep
      unfold HeadReader.stepDollar at hstep
      split at hstep
      · exact ⟨'$', others, rfl, .inl rfl⟩
      · exact ⟨')', others, rfl, .inr rfl⟩
      · exact absurd hstep (by simp)

/-- The default value is formed, and its tokens can be replaced by those that are written of it. -/
theorem exists_room (hreadable : ∀ token ∈ tokens, token.Readable)
    (hroom : tokens.foldlM Token.room maxNesting = some maxNesting) :
    ∃ room, place.value.Formed room ∧
      (place.replaced place.value.tokens).foldlM Token.room maxNesting = some maxNesting := by
  have htokens : tokens = (place.lead ++ [.punctuator '=']) ++ (place.middle ++ place.later) := by
    rw [List.append_assoc, List.singleton_append, ← place.tokens_eq]
  have hreplaced : place.replaced place.value.tokens =
      (place.lead ++ [.punctuator '=']) ++ (place.value.tokens ++ place.later) := by simp [replaced]
  rw [htokens, List.foldlM_append] at hroom
  obtain ⟨room, hlead, hmiddle⟩ := Option.bind_eq_some_iff.1 hroom
  have hstart : ValueReader.ProgressFormed room (.more .start) := trivial
  obtain ⟨hformed, hlater⟩ := ValueReader.formed_of_read? hstart
    (fun token htoken => hreadable token (by rw [htokens]; exact List.mem_append_right _ htoken))
      hmiddle
    place.read_middle
  refine ⟨room, hformed, ?_⟩
  rw [hreplaced, List.foldlM_append, hlead]
  change (place.value.tokens ++ place.later).foldlM Token.room room = some maxNesting
  rw [List.foldlM_append, hformed.nestsWithin room (Nat.le_refl _)]
  exact hlater

end DefaultPlace

end QueryHooks.Document
