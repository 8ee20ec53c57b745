import QueryHooks.Operation.Loading
import QueryHooks.Proofs.Document.OperationTokens
import QueryHooks.Proofs.Operation.Draft
import QueryHooks.Proofs.Operation.Loading

/-!
# Printing operations

Operations are printed as a document in which each of them selects a single field.  Loading this
document gives the operations again, with their types named between the affixes.

Main results:

- Definition `documentText`: the document in which operations are printed.
- Theorem `Operation.writes_text`: the text of an operation is scanned into its tokens.
- Theorem `parse_documentText`: a printed document is parsed into the definitions of its operations.
- Theorem `loadText_documentText`: loading a printed document gives its operations.
-/

namespace QueryHooks

open Document (IsName NestsWithin StopsName Token Writes maxNesting stopsName_cons stopsName_nil)

/-! ## Texts -/

/-- The declaration of a variable without a default value. -/
def Variable.declarationText (v : Variable) : String :=
  "$" ++ v.name ++ ": " ++ v.type.text

/-- The variables of an operation, which are left out if there are none. -/
def Variable.listText : List Variable → String
  | [] => ""
  | v :: vs => "(" ++ ", ".intercalate ((v :: vs).map declarationText) ++ ")"

/-- An operation that selects a single field. -/
def Operation.text (operation : Operation) : String :=
  operation.kind.keyword ++ " " ++ operation.name ++ Variable.listText operation.declared ++
    " \x7b f \x7d"

/-- The document that consists of some operations, one on each line. -/
def documentText (operations : List Operation) : String :=
  "\n".intercalate (operations.map Operation.text)

/-! ## Operations that can be printed -/

/-- A variable that can be printed; the brackets around the variables take the room of one list. -/
structure Variable.IsPlain (v : Variable) : Prop where
  name : IsName v.name.toList
  innermost : IsName v.type.innermost.toList
  levels_lt : v.type.levels < maxNesting
  default_eq : v.default? = none

/-- An operation that can be printed. -/
structure Operation.IsPlain (operation : Operation) : Prop where
  name : IsName operation.name.toList
  declared : ∀ v ∈ operation.declared, v.IsPlain

instance (v : Variable) : Decidable v.IsPlain :=
  decidable_of_iff (IsName v.name.toList ∧ IsName v.type.innermost.toList ∧
      v.type.levels < maxNesting ∧ v.default? = none)
    ⟨fun ⟨name, innermost, levels_lt, default_eq⟩ => ⟨name, innermost, levels_lt, default_eq⟩,
      fun h => ⟨h.name, h.innermost, h.levels_lt, h.default_eq⟩⟩

instance (operation : Operation) : Decidable operation.IsPlain :=
  decidable_of_iff (IsName operation.name.toList ∧ ∀ v ∈ operation.declared, v.IsPlain)
    ⟨fun ⟨name, declared⟩ => ⟨name, declared⟩, fun h => ⟨h.name, h.declared⟩⟩

/-- An operation whose types have their default names between the affixes. -/
def Operation.retyped (affixes : Affixes) (operation : Operation) : Operation :=
  let draft : Draft :=
    { kind := operation.kind, name := operation.name, declared := [], distinct := List.nodup_nil }
  { operation with
    resultType := affixes.wrap draft.build.resultType
    variablesType := affixes.wrap draft.build.variablesType }

/-! ## Scanning -/

/-- The declaration of a plain variable writes its tokens. -/
theorem Variable.IsPlain.writes_declarationText {v : Variable} (h : v.IsPlain) :
    Writes v.declarationText.toList v.tokens := by
  have htype : Writes v.type.text.toList v.type.tokens := TypeRef.writes_text v.type h.innermost
  have hcolon : Writes (':' :: ' ' :: v.type.text.toList) (.punctuator ':' :: v.type.tokens) :=
    (htype.cons_ignored (.inl rfl)).cons_punctuator rfl
  have hname : Writes v.name.toList [.name v.name.toList] := Writes.name h.name
  have hdeclared := hname.append hcolon (stopsName_cons rfl)
  have hdollar : Writes ('$' :: (v.name.toList ++ ':' :: ' ' :: v.type.text.toList)) v.tokens :=
    hdeclared.cons_punctuator rfl
  simpa [declarationText] using hdollar

/-- The list of plain variables writes its tokens. -/
theorem Variable.writes_listText {vs : List Variable} (h : ∀ v ∈ vs, v.IsPlain) :
    Writes (listText vs).toList (listTokens vs) := by
  cases vs with
  | nil => exact .nil
  | cons v vs =>
    have hitems : Writes ([',', ' '].intercalate ((v :: vs).map (·.declarationText.toList)))
        ((v :: vs).flatMap tokens) := by
      refine Writes.intercalate (by simp) (by simp) ?_
      intro other hother
      exact (h other hother).writes_declarationText
    have hclose : Writes [')'] [.punctuator ')'] := Writes.nil.cons_punctuator rfl
    have hlist : Writes _ (listTokens (v :: vs)) :=
      (hitems.append hclose (stopsName_cons rfl)).cons_punctuator rfl
    simpa [listText, String.toList_intercalate, Function.comp_def] using hlist

theorem Variable.stopsName_listText (vs : List Variable) : StopsName (listText vs).toList := by
  cases vs with
  | nil => exact stopsName_nil
  | cons v vs =>
    rw [listText, String.toList_append, String.toList_append]
    exact stopsName_cons rfl

/-- The selection of a single field writes its tokens. -/
theorem writes_selection : Writes " \x7b f \x7d".toList selectionTokens := by
  have hclose : Writes ['\x7d'] [.punctuator '\x7d'] := Writes.nil.cons_punctuator rfl
  have hfield : Writes ['f'] [.name ['f']] := Writes.name (by decide)
  have hselection := hfield.append (hclose.cons_ignored (.inl rfl)) (stopsName_cons rfl)
  have hopen : Writes ['\x7b', ' ', 'f', ' ', '\x7d'] selectionTokens :=
    (hselection.cons_ignored (.inl rfl)).cons_punctuator rfl
  exact hopen.cons_ignored (.inl rfl)

/-- The keyword of each kind of operation is a name. -/
theorem isName_keyword (kind : Operation.Kind) : IsName kind.keyword.toList := by
  cases kind <;> decide

/-- The text of an operation is scanned into its tokens. -/
theorem Operation.IsPlain.writes_text {operation : Operation} (h : operation.IsPlain) :
    Writes operation.text.toList operation.tokens := by
  have hselection : StopsName " \x7b f \x7d".toList := stopsName_cons rfl
  have hstop := (Variable.stopsName_listText operation.declared).append hselection
  have hlist := (Variable.writes_listText h.declared).append writes_selection hselection
  have hname := (Writes.name h.name).append hlist hstop
  have hkeyword := (Writes.name (isName_keyword operation.kind)).append
    (hname.cons_ignored (.inl rfl)) (stopsName_cons rfl)
  simpa [text, tokens] using hkeyword

/-- The text of plain operations is scanned as their tokens. -/
theorem scans_documentText {operations : List Operation}
    (h : ∀ operation ∈ operations, operation.IsPlain) :
    Document.Scans (documentText operations).toList (operations.flatMap Operation.tokens) := by
  have hwrites : Writes (['\n'].intercalate (operations.map (·.text.toList)))
      (operations.flatMap Operation.tokens) := by
    refine Writes.intercalate (by simp) (by simp) ?_
    intro operation hoperation
    exact (h operation hoperation).writes_text
  have hscans := hwrites.scans
  simpa [documentText, String.toList_intercalate, Function.comp_def] using hscans

/-- The brackets of printed operations are never too many. -/
theorem nestsWithin_documentTokens {operations : List Operation}
    (h : ∀ operation ∈ operations, operation.IsPlain) :
    NestsWithin maxNesting (operations.flatMap Operation.tokens) := by
  apply NestsWithin.flatMap
  intro operation hoperation
  have hlevels : ∀ v ∈ operation.declared, v.type.levels ≤ 49 := by
    intro v hv
    have hlt := ((h operation hoperation).declared v hv).levels_lt
    rw [maxNesting] at hlt
    omega
  exact Operation.nestsWithin_tokens hlevels

/-! ## Parsing -/

/-- A printed document is parsed into the definitions of its operations, in order. -/
theorem parse_documentText {operations : List Operation} (hne : operations ≠ [])
    (h : ∀ operation ∈ operations, operation.IsPlain) :
    ∃ found, Document.parse (documentText operations) = .ok (found.map .operation) ∧
      List.Forall₂ (fun operation definition => ∃ position, definition =
        operation.definition position)
        operations found := by
  obtain ⟨lexemes, ending, hscan, hlexemes⟩ :=
    Document.scan_of_nestsWithin (scans_documentText h) (nestsWithin_documentTokens h)
  obtain ⟨found, hrun, hfound⟩ := Document.Parser.run_tokens [] operations hlexemes
  refine ⟨found, ?_, hfound⟩
  have hnonempty : found ≠ [] := by
    rintro rfl
    exact hne (List.forall₂_nil_right_iff.1 hfound)
  rw [Document.parse, hscan]
  simp only [List.nil_append] at hrun
  simp [hrun, Document.Parser.complete?, hnonempty, bind, Except.bind, pure, Except.pure]

/-! ## Loading -/

/-- A plain variable comes back from its definition. -/
theorem Variable.IsPlain.ofDefinition_definition {v : Variable} (h : v.IsPlain) :
    ofDefinition v.definition = v := by
  obtain ⟨name, type, default?⟩ := v
  obtain rfl : default? = none := h.default_eq
  simp [ofDefinition, definition, TypeRef.ofSyntax_toSyntax]

/-- The definition of an operation is loaded as that operation, but for the names of its types. -/
theorem Operation.IsPlain.ofDefinition_definition (affixes : Affixes) (path? : Option Path)
    {operation : Operation} (h : operation.IsPlain) (position : Document.Position) :
    ofDefinition affixes path? (operation.definition position) =
      .ok (operation.retyped affixes) := by
  have hdeclared : (operation.definition position).declared.map Variable.ofDefinition =
      operation.declared := by
    rw [definition, List.map_map]
    calc operation.declared.map (Variable.ofDefinition ∘ Variable.definition)
        = operation.declared.map id := by
          apply List.map_congr_left
          intro v hv
          exact (h.declared v hv).ofDefinition_definition
      _ = operation.declared := List.map_id _
  have hadded := Draft.addVariables_eq_ok
    (Draft.affixed affixes operation.kind operation.name) operation.distinct
  rw [ofDefinition]
  simp only [hdeclared]
  simp only [definition, hadded]
  rfl

/--
Loading a printed document gives its operations, in order, with their types between the affixes.
-/
theorem loadText_documentText (affixes : Affixes) (path? : Option Path)
    (operations : List Operation)
    (hne : operations ≠ []) (h : ∀ operation ∈ operations, operation.IsPlain) :
    loadText affixes path? (documentText operations) =
      .ok (operations.map (Operation.retyped affixes)) := by
  obtain ⟨found, hparse, hfound⟩ := parse_documentText hne h
  have hdefinitions : (found.map Document.Definition.operation).filterMap
      Document.Definition.operation? = found := by
    rw [List.filterMap_map]
    exact List.filterMap_some
  refine loadText_eq_ok_iff.2 ⟨_, hparse, ?_⟩
  rw [hdefinitions]
  clear hparse hdefinitions hne
  induction hfound with
  | nil => rfl
  | cons hfirst _ ih =>
    obtain ⟨position, rfl⟩ := hfirst
    have hoperation := (h _ List.mem_cons_self).ofDefinition_definition affixes path? position
    have hlater := ih fun other hother => h other (List.mem_cons_of_mem _ hother)
    simp only [List.map_cons, hoperation, hlater]

/-- A query with lists inside of lists, and a subscription without variables. -/
def queryAndSubscription : List Operation :=
  [{ kind := .query
     name := "getUser"
     resultType := "Result"
     variablesType := "Variables"
     declared :=
      [⟨"ids", .list (.list (.named "ID" false) true) false, none⟩,
        ⟨"_last", .named "Int" true, none⟩] },
    { kind := .subscription
      name := "_ticks"
      resultType := "Result"
      variablesType := "Variables"
      declared := []
      distinct := List.nodup_nil }]

/-- The two operations are printed and loaded, with other names for their types. -/
theorem loadText_queryAndSubscription :
    documentText queryAndSubscription =
      "query getUser($ids: [[ID!]]!, $_last: Int) \x7b f \x7d\nsubscription _ticks \x7b f \x7d" ∧
    loadText ⟨"I", "Doc"⟩ none (documentText queryAndSubscription) =
      .ok
        [{ kind := .query
           name := "getUser"
           resultType := "IGetUserQueryDoc"
           variablesType := "IGetUserQueryVariablesDoc"
           declared :=
            [⟨"ids", .list (.list (.named "ID" false) true) false, none⟩,
              ⟨"_last", .named "Int" true, none⟩] },
          { kind := .subscription
            name := "_ticks"
            resultType := "ITicksSubscriptionDoc"
            variablesType := "ITicksSubscriptionVariablesDoc"
            declared := [] }] := by
  have hplain : ∀ operation ∈ queryAndSubscription, operation.IsPlain := by decide
  have hload := loadText_documentText ⟨"I", "Doc"⟩ none queryAndSubscription (by decide) hplain
  refine ⟨by decide, ?_⟩
  rw [hload]
  decide

end QueryHooks
