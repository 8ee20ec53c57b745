import Mathlib
import QueryHooks.Emission.Emitter
import QueryHooks.Proofs.Document.Brackets
import QueryHooks.Proofs.Document.JoinedTexts
import QueryHooks.Proofs.Document.Placement
import QueryHooks.Proofs.Operation.Loading

/-!
# Loading joined documents

How operations are spread over documents does not matter.  A document that is loaded ends with all
its brackets closed and outside of a definition, so documents can be put below each other in one
text, which is loaded as all their operations in order.

Main results:

- Theorem `Document.parse_eq_ok_iff`: when a text is parsed into some definitions.
- Theorem `Document.parse_append_lf`: two documents, one below the other, are parsed into the
  definitions of both.
- Theorem `loadText_intercalate`: documents, one below the other, are loaded as the operations of
  all.
- Theorem `operations_of_joined_documents`: a module does not depend on how its operations are
  spread over documents.
-/

namespace QueryHooks

/-! ## Parsing -/

namespace Document

/-- A document that is parsed is scanned up to its end, and it has a definition. -/
theorem ends_of_parse {text : String} {definitions : List Definition}
    (h : parse text = .ok definitions) :
    (∃ ending, (scan text.toList).ending = .endOfText ending) ∧ definitions ≠ [] := by
  have hrun := run_of_parse h
  rw [parse, hrun] at h
  simp only [bind, Except.bind] at h
  split at h
  · rename_i ending complete hending hcomplete
    refine ⟨⟨ending, hending⟩, ?_⟩
    rintro rfl
    simp [Parser.complete?] at hcomplete
  · exact absurd h (by simp [throw, throwThe, MonadExceptOf.throw])

/-- A scan that reaches the end of the text has left out no lexeme. -/
theorem scanFrom_of_scan {text : List Char} {ending : Position}
    (h : (scan text).ending = .endOfText ending) :
    scanFrom {} text = ⟨(scan text).lexemes, .endOfText ending⟩ ∧
      ∃ behind, ((scan text).lexemes.map Lexeme.token).foldlM Token.room maxNesting =
        some behind := by
  cases hlimit : limitLexemes maxNesting (scanFrom {} text).lexemes with
  | mk lexemes place? =>
    cases place? with
    | some place => simp [scan, Scan.limitNesting, hlimit] at h
    | none =>
      have hnone : (limitLexemes maxNesting (scanFrom {} text).lexemes).2 = none := by rw [hlimit]
      obtain ⟨behind, hroom⟩ := exists_room_of_limitLexemes hnone
      have hall := limitLexemes_of_room hroom
      have hscan : scan text = scanFrom {} text := by rw [scan, Scan.limitNesting, hall]
      rw [hscan] at h ⊢
      exact ⟨by rw [← h], behind, hroom⟩

/--
A text is parsed exactly if it is scanned up to its end, if there is room for its brackets and all
of them are closed, and if its lexemes are taken as definitions of which there is at least one.
-/
theorem parse_eq_ok_iff {text : String} {definitions : List Definition} :
    parse text = .ok definitions ↔
      definitions ≠ [] ∧ ∃ lexemes ending, scanFrom {} text.toList = ⟨lexemes, .endOfText ending⟩ ∧
        (lexemes.map Lexeme.token).foldlM Token.room maxNesting = some maxNesting ∧
        Parser.run {} lexemes = .ok ⟨definitions, .outside⟩ := by
  constructor
  · intro h
    obtain ⟨⟨ending, hending⟩, hne⟩ := ends_of_parse h
    obtain ⟨hscan, behind, hroom⟩ := scanFrom_of_scan hending
    have hrun : Parser.run {} (scan text.toList).lexemes = .ok ⟨definitions, .outside⟩ :=
      run_of_parse h
    have hclosed : behind = maxNesting := by
      have hsound : HeadReader.outside.Sound := trivial
      exact Parser.room_of_run hsound hrun hroom
    rw [hclosed] at hroom
    exact ⟨hne, _, ending, hscan, hroom, hrun⟩
  · rintro ⟨hne, lexemes, ending, hscan, hroom, hrun⟩
    have hlimited : scan text.toList = ⟨lexemes, .endOfText ending⟩ := by
      rw [scan, hscan, Scan.limitNesting, limitLexemes_of_room hroom]
    rw [parse, hlimited]
    simp [hrun, Parser.complete?, hne, bind, Except.bind, pure, Except.pure]

/--
Two documents, one below the other, are parsed into the definitions of both; those of the second
keep all but their positions.
-/
theorem parse_append_lf {text later : String} {definitions others : List Definition}
    (h : parse text = .ok definitions) (hlater : parse later = .ok others) :
    ∃ moved, parse (text ++ "\n" ++ later) = .ok (definitions ++ moved) ∧
      moved.map Definition.unplaced = others.map Definition.unplaced := by
  obtain ⟨hne, lexemes, ending, hscan, hroom, hrun⟩ := parse_eq_ok_iff.1 h
  obtain ⟨_, lexemesLater, _, hscanLater, hroomLater, hrunLater⟩ := parse_eq_ok_iff.1 hlater
  -- Below the first document, the second one has the same tokens at other positions.
  obtain ⟨below, endingBelow, hbelow, htokens⟩ :=
    scans_of_scanFrom hscanLater ending.nextLine
  obtain ⟨moved, hrunBelow, hmoved⟩ := Parser.exists_run_outside htokens hrunLater
  refine ⟨moved, parse_eq_ok_iff.2 ⟨by simp [hne], lexemes ++ below, endingBelow, ?_, ?_, ?_⟩,
    hmoved⟩
  · have hjoined := scanFrom_append_lf hscan later.toList
    rw [hbelow] at hjoined
    have hchars : (text ++ "\n" ++ later).toList = text.toList ++ '\n' :: later.toList := by simp
    rw [hchars]
    exact hjoined
  · rw [← htokens] at hroomLater
    rw [List.map_append, List.foldlM_append, hroom]
    exact hroomLater
  · have hbehind := Parser.run_behind definitions {} below
    rw [hrunBelow] at hbehind
    rw [Parser.run_append, hrun]
    simpa [Except.map, bind, Except.bind] using hbehind

end Document

/-! ## Loading -/

open Document (Definition OperationDefinition)

namespace Operation

variable (affixes : Affixes)

/-- Whether a definition gives an operation depends neither on its path nor on its position. -/
theorem ofDefinition_eq_ok_iff_unplaced (path? : Option Path) (definition : OperationDefinition)
    (operation : Operation) :
    ofDefinition affixes path? definition = .ok operation ↔
      ofDefinition affixes none definition.unplaced = .ok operation := by
  obtain ⟨position, kind, name?, declared⟩ := definition
  cases name? with
  | none => simp [ofDefinition, OperationDefinition.unplaced]
  | some name => rfl

/-- Which operations come of some definitions does not depend on their places. -/
theorem map_ofDefinition_eq_ok_iff_unplaced (path? : Option Path)
    (definitions : List OperationDefinition) (operations : List Operation) :
    definitions.map (ofDefinition affixes path?) = operations.map .ok ↔
      (definitions.map OperationDefinition.unplaced).map (ofDefinition affixes none) =
        operations.map .ok := by
  induction definitions generalizing operations with
  | nil => rfl
  | cons definition definitions ih =>
    cases operations with
    | nil => simp
    | cons operation operations =>
      have hfirst := ofDefinition_eq_ok_iff_unplaced affixes path? definition operation
      have hlater := ih operations
      simp only [List.map_cons, List.cons.injEq, hfirst, hlater]

end Operation

/-- Some definitions are loaded as operations, whatever their path and their positions. -/
def Loads (affixes : Affixes) (definitions : List Definition) (operations : List Operation) :
    Prop :=
  ((definitions.map Definition.unplaced).filterMap Definition.operation?).map
    (Operation.ofDefinition affixes none) = operations.map .ok

namespace Loads

variable {affixes : Affixes} {definitions others : List Definition}
  {operations later : List Operation}

/-- Definitions are loaded one list behind the other. -/
theorem append (h : Loads affixes definitions operations) (hlater : Loads affixes others later) :
    Loads affixes (definitions ++ others) (operations ++ later) := by
  rw [Loads] at h hlater ⊢
  rw [List.map_append, List.filterMap_append, List.map_append, h, hlater, List.map_append]

/-- Definitions that differ in their places only are loaded alike. -/
theorem congr (h : Loads affixes definitions operations)
    (hunplaced : others.map Definition.unplaced = definitions.map Definition.unplaced) :
    Loads affixes others operations := by
  rw [Loads] at h ⊢
  rw [hunplaced]
  exact h

end Loads

/-- Leaving out the places leaves the operations in their order. -/
theorem filterMap_operation?_unplaced (definitions : List Definition) :
    (definitions.map Definition.unplaced).filterMap Definition.operation? =
      (definitions.filterMap Definition.operation?).map OperationDefinition.unplaced := by
  rw [List.filterMap_map, List.map_filterMap]
  congr 1
  funext definition
  cases definition <;> rfl

/-- A document is loaded exactly if it is parsed and its definitions are loaded. -/
theorem loadText_eq_ok_iff_loads {affixes : Affixes} {path? : Option Path} {text : String}
    {operations : List Operation} :
    loadText affixes path? text = .ok operations ↔
      ∃ definitions, Document.parse text = .ok definitions ∧
        Loads affixes definitions operations := by
  have hloads (definitions : List Definition) : Loads affixes definitions operations ↔
      (definitions.filterMap Definition.operation?).map (Operation.ofDefinition affixes path?) =
        operations.map .ok := by
    rw [Loads, filterMap_operation?_unplaced]
    exact (Operation.map_ofDefinition_eq_ok_iff_unplaced ..).symm
  simp only [loadText_eq_ok_iff, hloads]

/--
Two documents, one below the other, are loaded as the operations of both, whatever their paths.
-/
theorem loadText_append_lf {affixes : Affixes} {path? pathLater? : Option Path}
    {text textLater : String} {operations later : List Operation}
    (h : loadText affixes path? text = .ok operations)
    (hlater : loadText affixes pathLater? textLater = .ok later) (joined? : Option Path) :
    loadText affixes joined? (text ++ "\n" ++ textLater) = .ok (operations ++ later) := by
  obtain ⟨definitions, hparse, hloads⟩ := loadText_eq_ok_iff_loads.1 h
  obtain ⟨others, hparseLater, hloadsLater⟩ := loadText_eq_ok_iff_loads.1 hlater
  obtain ⟨moved, hjoined, hunplaced⟩ := Document.parse_append_lf hparse hparseLater
  exact loadText_eq_ok_iff_loads.2 ⟨_, hjoined, hloads.append (hloadsLater.congr hunplaced)⟩

/-- Documents, one below the other, are loaded as the operations of all, in order. -/
theorem loadText_intercalate {affixes : Affixes} {documents : List (Option Path × String)}
    {lists : List (List Operation)} (hne : documents ≠ [])
    (h : List.Forall₂ (fun document operations =>
      loadText affixes document.1 document.2 = .ok operations) documents lists)
    (joined? : Option Path) :
    loadText affixes joined? ("\n".intercalate (documents.map Prod.snd)) = .ok lists.flatten := by
  induction h generalizing joined? with
  | nil => exact absurd rfl hne
  | @cons document operations documents lists hfirst hlater ih =>
    cases documents with
    | nil =>
      obtain rfl := List.forall₂_nil_left_iff.1 hlater
      obtain ⟨definitions, hparse, hloads⟩ := loadText_eq_ok_iff_loads.1 hfirst
      exact loadText_eq_ok_iff_loads.2 ⟨definitions, by simpa using hparse, by simpa using hloads⟩
    | cons next documents =>
      have hbelow := ih (by simp) none
      have hboth := loadText_append_lf hfirst hbelow joined?
      simpa [String.intercalate_cons_cons] using hboth

/-! ## Emission -/

/-- Recording operations document by document is recording all of them. -/
theorem Emitter.foldl_recordAll (emitter : Emitter) (lists : List (List Operation)) :
    lists.foldl recordAll emitter = emitter.recordAll lists.flatten := by
  induction lists generalizing emitter with
  | nil => rfl
  | cons operations lists ih =>
    rw [List.foldl_cons, ih]
    simp [recordAll, Collector.recordAll]

/-- An emitter that loads documents in turn records the operations of all of them. -/
theorem Emitter.foldlM_load {documents : List (Option Path × String)}
    {lists : List (List Operation)}
    (emitter : Emitter)
    (h : List.Forall₂ (fun document operations =>
      loadText emitter.config.affixes document.1 document.2 = .ok operations) documents lists) :
    documents.foldlM (fun emitter document => emitter.load document.1 document.2) emitter =
      .ok (lists.foldl recordAll emitter) := by
  generalize hconfig : emitter.config.affixes = affixes at h
  induction h generalizing emitter with
  | nil => rfl
  | @cons document operations documents lists hfirst hlater ih =>
    have hload : emitter.load document.1 document.2 = .ok (emitter.recordAll operations) := by
      rw [load, hconfig, hfirst]
      rfl
    rw [List.foldlM_cons, hload]
    exact ih (emitter.recordAll operations) hconfig

/--
Documents that are each loaded can be put below each other: the joined text is loaded as the
operations of all of them, in order.  Whether the operations are recorded document by document or
those of the joined text are recorded, the same module or the same collision comes of it, also if an
emitter itself loads the documents.
-/
theorem operations_of_joined_documents {affixes : Affixes}
    {documents : List (Option Path × String)} {lists : List (List Operation)} (hne : documents ≠ [])
    (h : List.Forall₂ (fun document operations =>
      loadText affixes document.1 document.2 = .ok operations) documents lists)
    (joined? : Option Path) :
    let text := "\n".intercalate (documents.map Prod.snd)
    loadText affixes joined? text = .ok lists.flatten ∧
      ∀ emitter : Emitter,
        (lists.foldl Emitter.recordAll emitter).emit = (emitter.recordAll lists.flatten).emit ∧
        (emitter.config.affixes = affixes →
          ∃ separate joined,
            documents.foldlM (fun emitter document => emitter.load document.1 document.2) emitter =
              .ok separate ∧
            emitter.load joined? text = .ok joined ∧ separate.emit = joined.emit) := by
  intro text
  have hjoined : loadText affixes joined? text = .ok lists.flatten :=
    loadText_intercalate hne h joined?
  refine ⟨hjoined, fun emitter => ⟨by rw [Emitter.foldl_recordAll], ?_⟩⟩
  rintro rfl
  refine ⟨lists.foldl Emitter.recordAll emitter, emitter.recordAll lists.flatten,
    Emitter.foldlM_load emitter h, ?_, by rw [Emitter.foldl_recordAll]⟩
  rw [Emitter.load, hjoined]
  rfl

/-- A document that ends in a comment, and one behind a byte-order mark. -/
def commentedDocuments : List (Option Path × String) :=
  [(some ⟨"a.graphql"⟩, "query A \x7b f \x7d # the end"),
    (none, "\ufeffmutation b($x: I = \"#\") \x7b f \x7d")]

/-- The operations of the two documents. -/
def commentedOperations : List (List Operation) :=
  [[{ kind := .query
      name := "A"
      resultType := "TAQuery"
      variablesType := "TAQueryVariables"
      declared := []
      distinct := List.nodup_nil }],
    [{ kind := .mutation
       name := "b"
       resultType := "TBMutation"
       variablesType := "TBMutationVariables"
       declared := [⟨"x", .named "I" true, some "\"#\""⟩]
       distinct := List.nodup_singleton "x" }]]

/-- The lexemes of the documents, where a comment and a mark of the byte order are skipped. -/
theorem scan_commentedDocuments :
    Document.scan "query A \x7b f \x7d # the end".toList =
        ⟨[⟨⟨1, 1⟩, .name "query".toList⟩, ⟨⟨1, 7⟩, .name ['A']⟩, ⟨⟨1, 9⟩, .punctuator '\x7b'⟩,
          ⟨⟨1, 11⟩, .name ['f']⟩, ⟨⟨1, 13⟩, .punctuator '\x7d'⟩], .endOfText ⟨1, 15⟩⟩ ∧
      Document.scan "\ufeffmutation b($x: I = \"#\") \x7b f \x7d".toList =
        ⟨[⟨⟨1, 1⟩, .name "mutation".toList⟩, ⟨⟨1, 10⟩, .name ['b']⟩, ⟨⟨1, 11⟩, .punctuator '('⟩,
          ⟨⟨1, 12⟩, .punctuator '$'⟩, ⟨⟨1, 13⟩, .name ['x']⟩, ⟨⟨1, 14⟩, .punctuator ':'⟩,
          ⟨⟨1, 16⟩, .name ['I']⟩, ⟨⟨1, 18⟩, .punctuator '='⟩, ⟨⟨1, 20⟩, .string ['#']⟩,
          ⟨⟨1, 23⟩, .punctuator ')'⟩, ⟨⟨1, 25⟩, .punctuator '\x7b'⟩, ⟨⟨1, 27⟩, .name ['f']⟩,
          ⟨⟨1, 29⟩, .punctuator '\x7d'⟩], .endOfText ⟨1, 30⟩⟩ := by
  constructor
  · cbv
  · cbv

/-- Both documents are accepted with these operations. -/
theorem loadText_commentedDocuments :
    List.Forall₂ (fun document operations => loadText ⟨"T", ""⟩ document.1 document.2 =
      .ok operations)
      commentedDocuments commentedOperations := by
  obtain ⟨hfirst, hsecond⟩ := scan_commentedDocuments
  refine .cons ?_ (.cons ?_ .nil)
  · rw [loadText, Document.parse, hfirst]
    decide
  · rw [loadText, Document.parse, hsecond]
    decide

/-- The comment ends at the end of its document, and the byte-order mark is passed over. -/
theorem operations_of_commentedDocuments :
    loadText ⟨"T", ""⟩ none
        "query A \x7b f \x7d # the end\n\ufeffmutation b($x: I = \"#\") \x7b f \x7d" =
      .ok commentedOperations.flatten ∧
    (commentedOperations.foldl Emitter.recordAll ⟨{}, {}⟩).emit =
      (Emitter.recordAll ⟨{}, {}⟩ commentedOperations.flatten).emit := by
  have hjoined := operations_of_joined_documents (by decide) loadText_commentedDocuments none
  obtain ⟨hload, hrecord⟩ := hjoined
  exact ⟨hload, (hrecord ⟨{}, {}⟩).1⟩

end QueryHooks
