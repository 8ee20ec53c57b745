import Mathlib
import QueryHooks.Proofs.Document.RewrittenDefaults
import QueryHooks.Proofs.Operation.Joining

/-!
# Texts of default values

The default value of a variable is kept as a text, which is not its source but the text that is
written of its value.  A document where this text stands for the default value is loaded as the same
operations exactly if the value is kept (`Document.Value.isKept`): if each number and each string in
it can be read again from what is written of it.

Main results:

- Theorem `loadText_eq_ok_iff_tokens`: what a text is loaded as is determined by its tokens.
- Theorem `Loads.declare_iff`: of the variables of a definition, only what they are loaded as
  matters.
- Theorem `default_texts_are_kept_iff`: when the text of a default value can stand in its place.
- Theorem `default_texts_are_not_kept`: two default values whose texts cannot stand in their places.
-/

namespace QueryHooks

open Document (Definition OperationDefinition Token VariableDefinition)

/-! ## Loading tokens -/

theorem map_token_unplaced (tokens : List Token) :
    (tokens.map fun token => (⟨{}, token⟩ : Document.Lexeme)).map Document.Lexeme.token =
      tokens := by
  rw [List.map_map]
  exact List.map_id tokens

/--
A text is loaded exactly if its tokens are read up to its end and taken as definitions of
operations.
-/
theorem loadText_eq_ok_iff_tokens {affixes : Affixes} {path? : Option Path} {text : String}
    {operations : List Operation} :
    loadText affixes path? text = .ok operations ↔
      ∃ tokens definitions, Document.ReadsThrough text.toList tokens ∧
        tokens.foldlM Token.room Document.maxNesting = some Document.maxNesting ∧ definitions ≠ [] ∧
        Document.Parser.take {} tokens = .ok ⟨definitions, .outside⟩ ∧
        Loads affixes definitions operations := by
  rw [loadText_eq_ok_iff_loads]
  constructor
  · rintro ⟨definitions, hparse, hloads⟩
    obtain ⟨hne, lexemes, ending, hscan, hroom, hrun⟩ := Document.parse_eq_ok_iff.1 hparse
    have hthrough := Document.scans_iff_readsThrough.1 (Document.scans_of_scanFrom hscan)
    have htokens := map_token_unplaced (lexemes.map Document.Lexeme.token)
    obtain ⟨moved, hmoved, hunplaced⟩ := Document.Parser.exists_run_outside htokens hrun
    refine ⟨_, moved, hthrough, hroom, ?_, hmoved, hloads.congr hunplaced⟩
    rintro rfl
    exact hne (by simpa using hunplaced.symm)
  · rintro ⟨tokens, definitions, hthrough, hroom, hne, htake, hloads⟩
    obtain ⟨lexemes, ending, hscan, rfl⟩ := Document.scans_iff_readsThrough.2 hthrough {}
    have htokens := map_token_unplaced (lexemes.map Document.Lexeme.token)
    obtain ⟨moved, hmoved, hunplaced⟩ := Document.Parser.exists_run_outside htokens.symm htake
    refine ⟨moved, Document.parse_eq_ok_iff.2 ⟨?_, lexemes, ending, hscan, hroom, hmoved⟩,
      hloads.congr hunplaced⟩
    rintro rfl
    exact hne (by simpa using hunplaced.symm)

/-! ## Default values of an operation -/

/-- Variables that were added stand behind those before them. -/
theorem Operation.Draft.declared_of_addVariables {draft later : Draft} {vs : List Variable}
    (h : draft.addVariables vs = .ok later) : later.declared = draft.declared ++ vs := by
  induction vs generalizing draft with
  | nil =>
    obtain rfl := Except.ok.inj h
    rw [List.append_nil]
  | cons v vs ih =>
    rw [addVariables, List.foldlM_cons] at h
    cases hv : draft.addVariable v with
    | error error =>
      rw [hv] at h
      exact absurd h (by simp [bind, Except.bind])
    | ok between =>
      rw [hv] at h
      rw [ih h, declared_of_addVariable hv, List.append_assoc, List.singleton_append]

/-- An operation declares the variables of its definition, in order. -/
theorem Operation.declared_of_ofDefinition {affixes : Affixes} {path? : Option Path}
    {definition : OperationDefinition} {operation : Operation}
    (h : ofDefinition affixes path? definition = .ok operation) :
    operation.declared = definition.declared.map Variable.ofDefinition := by
  rw [ofDefinition] at h
  split at h
  · exact absurd h (by simp)
  · dsimp only at h
    split at h
    · exact absurd h (by simp)
    · rename_i draft hdraft
      rw [← Except.ok.inj h, Draft.declared_build, Draft.declared_of_addVariables hdraft]
      rfl

/-- Each operation that is loaded comes from the definition with its index. -/
theorem Loads.exists_definition {affixes : Affixes} {definitions : List Definition}
    {operations : List Operation} (h : Loads affixes definitions operations) {position : Nat}
    {operation : Operation} (hoperation : operations[position]? = some operation) :
    ∃ definition, (definitions.filterMap Definition.operation?)[position]? = some definition ∧
      operation.declared = definition.declared.map Variable.ofDefinition := by
  rw [Loads, filterMap_operation?_unplaced, List.map_map] at h
  have hposition := congrArg (fun results => results[position]?) h
  simp only [List.getElem?_map, hoperation, Option.map_some, Option.map_eq_some_iff] at hposition
  obtain ⟨definition, hdefinition, hgiven⟩ := hposition
  change Operation.ofDefinition affixes none definition.unplaced = .ok operation at hgiven
  have hdeclared := Operation.declared_of_ofDefinition hgiven
  exact ⟨definition, hdefinition, hdeclared⟩

/-- An element among the results stands behind the results of those in front of it. -/
theorem exists_getElem_of_filterMap {α β : Type} {f : α → Option β} {items : List α}
    {position : Nat} {result : β} (h : (items.filterMap f)[position]? = some result) :
    ∃ index item, items[index]? = some item ∧ f item = some result ∧
      ((items.take index).filterMap f).length = position := by
  induction items generalizing position with
  | nil => exact absurd h (by simp)
  | cons item items ih =>
    cases hitem : f item with
    | none =>
      rw [List.filterMap_cons_none hitem] at h
      obtain ⟨index, found, hfound, hresult, hlength⟩ := ih h
      exact ⟨index + 1, found, hfound, hresult, by
        rw [List.take_succ_cons, List.filterMap_cons_none hitem, hlength]⟩
    | some first =>
      rw [List.filterMap_cons_some hitem] at h
      cases position with
      | zero => exact ⟨0, item, rfl, by rw [hitem]; simpa using h, rfl⟩
      | succ position =>
        obtain ⟨index, found, hfound, hresult, hlength⟩ := ih (by simpa using h)
        exact ⟨index + 1, found, hfound, hresult, by
          rw [List.take_succ_cons, List.filterMap_cons_some hitem, List.length_cons, hlength]⟩

/-- Of the variables of a definition, only what they are loaded as decides on the operations. -/
theorem Loads.declare_iff {affixes : Affixes} {front more : List Definition}
    {definition : OperationDefinition} {operations : List Operation}
    (h : Loads affixes (front ++ .operation definition :: more) operations)
    (declared : List VariableDefinition) :
    Loads affixes (front ++ .operation { definition with declared } :: more) operations ↔
      declared.map Variable.ofDefinition = definition.declared.map Variable.ofDefinition := by
  rw [Loads, filterMap_operation?_unplaced] at h ⊢
  rw [← h]
  simp only [List.filterMap_append, List.filterMap_cons, Definition.operation?, List.map_append,
    List.map_cons, List.append_cancel_left_eq, List.cons.injEq, and_true]
  constructor
  · intro heq
    have hmem : Operation.ofDefinition affixes none definition.unplaced ∈
        operations.map Except.ok := by
      rw [← h]
      simp [Definition.operation?]
    obtain ⟨operation, _, hoperation⟩ := List.mem_map.1 hmem
    have hfirst := Operation.declared_of_ofDefinition hoperation.symm
    have hsecond := Operation.declared_of_ofDefinition (heq.trans hoperation.symm)
    exact hsecond.symm.trans hfirst
  · intro heq
    simp only [Operation.ofDefinition, OperationDefinition.unplaced, heq]

namespace Document.DefaultText

variable {document : List Char} {tokens : List Token} (place : DefaultText document tokens)

/-- How many operations stand in front of the one that declares the variable. -/
def operationIndex : Nat :=
  (place.definitions.filterMap Definition.operation?).length

/-- How many variables its operation declares in front of the variable. -/
def variableIndex : Nat :=
  place.head.declared.length

/--
A document loads to the same operations with the text of a default value, exactly if the value is
kept.
-/
theorem loadText_rewrite_iff {affixes : Affixes} {path? : Option Path} {operations : List Operation}
    {definitions : List Definition} (hthrough : ReadsThrough document tokens)
    (hroom : tokens.foldlM Token.room maxNesting = some maxNesting)
    (htake : Parser.take {} tokens = .ok ⟨definitions, .outside⟩)
    (hloads : Loads affixes definitions operations) :
    loadText affixes path? (String.ofList (place.rewrite place.value.text.toList)) =
      .ok operations ↔
      place.value.isKept = true := by
  have hreadable := hthrough.readable
  obtain ⟨room, hformed, hroomAgain⟩ := place.exists_room hreadable hroom
  obtain ⟨definition, more, hdefinitions, htakeAgain⟩ := place.take_tokens_iff hformed htake
  have hloadsAgain (another : Value) :
      Loads affixes
        (place.definitions ++
          .operation (definition.behind (place.head.declared ++ [place.variableWith another])) ::
            more)
        operations ↔ another.text = place.value.text := by
    rw [hdefinitions] at hloads
    have hdeclared := hloads.declare_iff
      ((place.head.declared ++ [place.variableWith another]) ++ definition.declared)
    simpa [OperationDefinition.behind, DefaultPlace.variableWith,
      Variable.ofDefinition] using hdeclared
  rw [loadText_eq_ok_iff_tokens]
  simp only [String.toList_ofList, place.readsThrough_text_iff htake hformed]
  constructor
  · rintro ⟨_, others, ⟨hreadableAgain, rfl⟩, _, _, htakeOthers, hloadsOthers⟩
    obtain ⟨another, hreread, rfl⟩ := (htakeAgain others).1 htakeOthers
    exact (Value.isKept_iff hformed hreadableAgain).2
      ⟨another, hreread, (hloadsAgain another).1 hloadsOthers⟩
  · intro hkept
    have hreadableAgain := hformed.readable_of_isKept hkept
    obtain ⟨another, hreread, htext⟩ := (Value.isKept_iff hformed hreadableAgain).1 hkept
    exact ⟨_, _, ⟨hreadableAgain, rfl⟩, hroomAgain, by simp,
      (htakeAgain _).2 ⟨another, hreread, rfl⟩,
      (hloadsAgain another).2 htext⟩

end Document.DefaultText

/-! ## Documents with the text of a default value -/

/--
A default value that is loaded with an operation stands at a place of the document, and its text is
that of the value at this place.  If the text is written there, the document is loaded as the same
operations, with the same texts, exactly if the value is kept.
-/
theorem default_texts_are_kept_iff {affixes : Affixes} {path? : Option Path} {document : String}
    {operations : List Operation} (hload : loadText affixes path? document = .ok operations)
    {position index : Nat} {operation : Operation} {v : Variable} {text : String}
    (hoperation : operations[position]? = some operation) (hv : operation.declared[index]? = some v)
    (htext : v.default? = some text) :
    ∃ (tokens : List Token) (place : Document.DefaultText document.toList tokens),
      place.operationIndex = position ∧ place.variableIndex = index ∧ place.value.text = text ∧
      (loadText affixes path? (String.ofList (place.rewrite text.toList)) = .ok operations ↔
        place.value.isKept = true) := by
  obtain ⟨tokens, definitions, hthrough, hroom, _, htake, hloads⟩ :=
    loadText_eq_ok_iff_tokens.1 hload
  obtain ⟨definition, hdefinition, hdeclared⟩ := hloads.exists_definition hoperation
  obtain ⟨rank, found, hfound, hresult, hlength⟩ := exists_getElem_of_filterMap hdefinition
  cases found with
  | fragment name => exact absurd hresult (by simp [Definition.operation?])
  | operation found =>
    obtain rfl := Option.some.inj hresult
    rw [hdeclared, List.getElem?_map, Option.map_eq_some_iff] at hv
    obtain ⟨declaration, hdeclaration, rfl⟩ := hv
    obtain ⟨value, hvalue, rfl⟩ := Option.map_eq_some_iff.1 htext
    obtain ⟨placed, hplace⟩ :=
      Document.exists_default_place htake hfound (Nat.zero_le _) hdeclaration hvalue
    obtain ⟨place, rfl⟩ := placed.exists_text hthrough
    obtain ⟨hdefinitions, hindex, rfl⟩ := hplace
    refine ⟨tokens, place, ?_, hindex, rfl, place.loadText_rewrite_iff hthrough hroom htake hloads⟩
    rw [Document.DefaultText.operationIndex, hdefinitions, hlength]

/-- A query with a single variable, whose default value has some text. -/
def queryWithDefault (text : String) : Operation where
  kind := .query
  name := "q"
  resultType := "QQuery"
  variablesType := "QQueryVariables"
  declared := [⟨"a", .named "T" true, some text⟩]

/-- The lexemes of its document, where a token of some width is its default value. -/
def scanWithDefault (token : Document.Token) (width : Nat) : Document.Scan where
  lexemes :=
    [⟨⟨1, 1⟩, .name "query".toList⟩, ⟨⟨1, 7⟩, .name ['q']⟩, ⟨⟨1, 8⟩, .punctuator '('⟩,
      ⟨⟨1, 9⟩, .punctuator '$'⟩, ⟨⟨1, 10⟩, .name ['a']⟩, ⟨⟨1, 11⟩, .punctuator ':'⟩,
      ⟨⟨1, 13⟩, .name ['T']⟩, ⟨⟨1, 15⟩, .punctuator '='⟩, ⟨⟨1, 17⟩, token⟩,
      ⟨⟨1, 17 + width⟩, .punctuator ')'⟩, ⟨⟨1, 19 + width⟩, .punctuator '\x7b'⟩,
      ⟨⟨1, 21 + width⟩, .name ['f']⟩, ⟨⟨1, 23 + width⟩, .punctuator '\x7d'⟩]
  ending := .endOfText ⟨1, 24 + width⟩

/-- The text of the number `2.50` has lost its last zero. -/
theorem default_text_of_number :
    ∃ (tokens : List Token)
      (place : Document.DefaultText "query q($a: T = 2.50) { f }".toList tokens),
      place.operationIndex = 0 ∧ place.variableIndex = 0 ∧ place.value.text = "2.5" ∧
      (loadText {} none (String.ofList (place.rewrite "2.5".toList)) =
        .ok [queryWithDefault "2.5"] ↔
        place.value.isKept = true) := by
  have hscan : Document.scan "query q($a: T = 2.50) { f }".toList =
      scanWithDefault (.number "2.50".toList) 4 := by
    cbv
  have hload : loadText {} none "query q($a: T = 2.50) { f }" = .ok [queryWithDefault "2.5"] := by
    rw [loadText, Document.parse, hscan]
    decide +kernel
  exact default_texts_are_kept_iff hload rfl rfl rfl

/--
The number `1e30` is kept without an exponent, as a whole number that cannot be read; and the
control character U+001F is kept under its decimal code, which is read as the digit 1.
-/
theorem default_texts_are_not_kept :
    (loadText {} none "query q($a: T = 1e30) { f }" =
        .ok [queryWithDefault "1000000000000000000000000000000"] ∧
      loadText {} none "query q($a: T = 1000000000000000000000000000000) { f }" =
        .error (.errors [.unparsable ⟨1, 17⟩ none])) ∧
    loadText {} none "query q($a: T = \"\\u001F\") { f }" =
        .ok [queryWithDefault "\"\\u0031\""] ∧
      loadText {} none "query q($a: T = \"\\u0031\") { f }" = .ok [queryWithDefault "\"1\""] := by
  have hexponent : Document.scan "query q($a: T = 1e30) { f }".toList =
      scanWithDefault (.number "1e30".toList) 4 := by
    cbv
  have hzeros : Document.scan "query q($a: T = 1000000000000000000000000000000) { f }".toList =
      scanWithDefault (.number "1000000000000000000000000000000".toList) 31 := by
    cbv
  have hhexadecimal : Document.scan "query q($a: T = \"\\u001F\") { f }".toList =
      scanWithDefault (.string "\\u001F".toList) 8 := by
    cbv
  have hdecimal : Document.scan "query q($a: T = \"\\u0031\") { f }".toList =
      scanWithDefault (.string "\\u0031".toList) 8 := by
    cbv
  refine ⟨⟨?_, ?_⟩, ?_, ?_⟩
  · rw [loadText, Document.parse, hexponent]
    decide +kernel
  · rw [loadText, Document.parse, hzeros]
    decide +kernel
  · rw [loadText, Document.parse, hhexadecimal]
    decide +kernel
  · rw [loadText, Document.parse, hdecimal]
    decide +kernel

end QueryHooks
