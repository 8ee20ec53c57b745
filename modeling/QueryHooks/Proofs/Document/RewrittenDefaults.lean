import QueryHooks.Proofs.Document.DefaultPlaces
import QueryHooks.Proofs.Document.KeptValues

/-!
# Documents with another default value

Each default value of a document stands at a place of its text.  What is written in front of this
place and behind it is read in the same way if the text of the value is written there instead of its
source: an equals sign ends in front of any text, and what follows a value in a document ends any
value of that sort.

Main results:

- Definition `DefaultText`: a default value in the text of a document.
- Theorem `DefaultPlace.exists_text`: each default value among the tokens has a place in the text.
- Theorem `DefaultText.stops_after`: what follows a default value stops also what is written of it.
- Theorem `DefaultText.readsThrough_text_iff`: what can be read where the text of the value is
  written.
-/

namespace QueryHooks.Document

/-! ## Default values in a text -/

/-- A default value in the text of a document. -/
structure DefaultText (document : List Char) (tokens : List Token) extends DefaultPlace
    {} tokens where
  before : List Char
  /-- What is written of the default value. -/
  source : List Char
  after : List Char
  document_eq : document = before ++ (source ++ after)
  reads_lead : ∃ behind, ReadsOff document (lead ++ [.punctuator '=']) behind ∧
    unignored behind = source ++ after
  reads_middle : ReadsOff (source ++ after) middle after
  reads_later : ReadsThrough after later

/-- A default value has a token. -/
theorem DefaultPlace.middle_ne_nil {parser : Parser} {tokens : List Token}
    (place : DefaultPlace parser tokens) : place.middle ≠ [] := by
  intro hnil
  have hread := place.read_value
  rw [hnil] at hread
  exact absurd hread (by simp [ValueReader.read?, Progress.read?])

/-- A default value among the tokens of a document has a place in its text. -/
theorem DefaultPlace.exists_text {document : List Char} {tokens : List Token}
    (place : DefaultPlace {} tokens)
    (hthrough : ReadsThrough document tokens) :
    ∃ text : DefaultText document tokens, text.toDefaultPlace = place := by
  obtain ⟨rest, hreads, hend⟩ := hthrough
  have htokens : tokens = (place.lead ++ [.punctuator '=']) ++ (place.middle ++ place.later) := by
    rw [List.append_assoc, List.singleton_append, ← place.tokens_eq]
  rw [htokens] at hreads
  obtain ⟨behind, hlead, hbehind⟩ := hreads.exists_between
  obtain ⟨after, hmiddle, hlater⟩ := hbehind.exists_between
  have hmiddle := hmiddle.of_unignored_eq (unignored_unignored _).symm place.middle_ne_nil
  obtain ⟨source, hsource⟩ := hmiddle.exists_append
  obtain ⟨beginning, hbeginning⟩ := hlead.exists_append
  obtain ⟨gap, hgap, _⟩ := exists_gap behind
  exact ⟨{ place with
    before := beginning ++ gap
    source := source
    after := after
    document_eq := by rw [hbeginning, List.append_assoc, ← hsource, ← hgap]
    reads_lead := ⟨behind, hlead, hsource⟩
    reads_middle := by rwa [← hsource]
    reads_later := ⟨rest, hlater, hend⟩ }, rfl⟩

namespace DefaultText

variable {document : List Char} {tokens : List Token} (place : DefaultText document tokens)

/-- The document where another text stands for the default value. -/
def rewrite (text : List Char) : List Char :=
  place.before ++ (text ++ place.after)

/-- The tokens in front of a default value are read in the same way if its text is replaced. -/
theorem readsThrough_rewrite_iff (text : List Char) (all : List Token) :
    ReadsThrough (place.rewrite text) all ↔
      ∃ others, all = place.lead ++ .punctuator '=' :: others ∧
        ReadsThrough (text ++ place.after) others := by
  obtain ⟨behind, hlead, hbehind⟩ := place.reads_lead
  have hreads : ReadsOff (place.before ++ (place.source ++ place.after))
    (place.lead ++ [.punctuator '='])
      behind := by
    rwa [← place.document_eq]
  have hne := place.reads_middle.ne_nil place.middle_ne_nil
  obtain ⟨left, hleft, hunignored⟩ := hreads.replace hbehind hne (text ++ place.after)
  constructor
  · intro hthrough
    obtain ⟨others, rfl, hothers⟩ := hleft.readsThrough_behind hthrough
    exact ⟨others, by simp, (readsThrough_congr hunignored).1 hothers⟩
  · rintro ⟨others, rfl, hothers⟩
    obtain ⟨rest, hrest, hend⟩ := (readsThrough_congr hunignored).2 hothers
    have hboth := hleft.append hrest
    rw [List.append_assoc, List.singleton_append] at hboth
    exact ⟨rest, hboth, hend⟩

end DefaultText

/-! ## What stands behind a value -/

namespace ValueReader

/-- A list or an object is open. -/
def IsOpen : ValueReader → Prop
  | value frames => frames ≠ []
  | reference frames => frames ≠ []
  | fieldName _ _ | fieldColon _ _ _ => True

/-- What comes of a token inside of a list or an object is part of it, or all of it. -/
def StaysOpen : Progress ValueReader Value → Prop
  | .more reader => reader.IsOpen
  | .done result => result.isSingle = false

/-- A value that is complete inside of another one leaves this one open. -/
theorem staysOpen_close {result : Value} {frames : List ValueFrame}
    (h : frames = [] → result.isSingle = false) : StaysOpen (close result frames) := by
  match frames with
  | [] => exact h rfl
  | .list items :: frames => exact List.cons_ne_nil _ _
  | .field name fields :: frames => trivial

/-- Inside of a list or an object each token stays inside, or it completes it. -/
theorem staysOpen_step {reader : ValueReader} {token : Token}
    {progress : Progress ValueReader Value}
    (hopen : reader.IsOpen) (h : reader.step false token = some progress) : StaysOpen progress := by
  unfold step at h
  split at h
  · unfold stepValue at h
    split at h
    · obtain rfl := Option.some.inj h
      exact List.cons_ne_nil _ _
    · obtain rfl := Option.some.inj h
      trivial
    · split at h
      · obtain rfl := Option.some.inj h
        exact staysOpen_close fun _ => rfl
      · exact absurd h (by simp)
    · exact absurd h (by simp)
    · obtain ⟨result, _, rfl⟩ := Option.map_eq_some_iff.1 h
      exact staysOpen_close fun hnil => absurd hnil hopen
  · obtain rfl := Option.some.inj h
    exact staysOpen_close fun hnil => absurd hnil hopen
  · obtain rfl := Option.some.inj h
    trivial
  · obtain rfl := Option.some.inj h
    exact staysOpen_close fun _ => rfl
  · obtain rfl := Option.some.inj h
    exact List.cons_ne_nil _ _
  · exact absurd h (by simp)

/-- What is read inside of a list or an object ends with all of it. -/
theorem not_single_of_read? {progress : Progress ValueReader Value} {tokens rest : List Token}
    {value : Value} (hopen : StaysOpen progress) (h : read? progress tokens = some (value, rest)) :
    value.isSingle = false := by
  induction tokens generalizing progress with
  | nil =>
    cases progress with
    | more reader => exact absurd h (by simp [read?, Progress.read?])
    | done found =>
      obtain ⟨rfl, _⟩ := Prod.mk.inj (Option.some.inj h)
      exact hopen
  | cons token tokens ih =>
    cases progress with
    | more reader =>
      obtain ⟨next, hnext, hread⟩ := Option.bind_eq_some_iff.1 h
      exact ih (staysOpen_step hopen hnext) hread
    | done found =>
      obtain ⟨rfl, _⟩ := Prod.mk.inj (Option.some.inj h)
      exact hopen

/-- A value that is written as a single token is read from a single token. -/
theorem exists_token_of_read? {tokens : List Token} {value : Value}
    (h : read? (.more .start) tokens = some (value, [])) (hsingle : value.isSingle = true) :
    ∃ token, tokens = [token] ∧ Value.ofToken? token = some value := by
  cases tokens with
  | nil => exact absurd h (by simp [read?, Progress.read?])
  | cons token tokens =>
    rw [read?_cons] at h
    obtain ⟨next, hnext, hread⟩ := Option.bind_eq_some_iff.1 h
    have hclosed : ¬StaysOpen next := by
      intro hopen
      rw [not_single_of_read? hopen hread] at hsingle
      exact absurd hsingle (by simp)
    change stepValue false [] token = some next at hnext
    unfold stepValue at hnext
    split at hnext
    · obtain rfl := Option.some.inj hnext
      exact absurd (List.cons_ne_nil _ _) hclosed
    · obtain rfl := Option.some.inj hnext
      exact absurd trivial hclosed
    · exact absurd hnext (by simp)
    · exact absurd hnext (by simp)
    · obtain ⟨result, hresult, rfl⟩ := Option.map_eq_some_iff.1 hnext
      obtain ⟨rfl, rfl⟩ :=
        Prod.mk.inj (Option.some.inj ((read?_done result tokens).symm.trans hread))
      exact ⟨token, rfl, hresult⟩

end ValueReader

namespace DefaultText

variable {document : List Char} {tokens : List Token} (place : DefaultText document tokens)

/-- What follows a default value is neither part of a name nor a quote. -/
theorem after_begins {found : List Definition}
    (htake : Parser.take {} tokens = .ok ⟨found, .outside⟩) :
    StopsName place.after ∧ ∀ c ∈ place.after.head?, c ≠ '"' := by
  obtain ⟨c, others, hlater, hc⟩ := place.exists_later htake
  have hthrough := place.reads_later
  rw [hlater] at hthrough
  obtain ⟨rest, ⟨⟩ | ⟨hread, _⟩, _⟩ := hthrough
  have hunignored := Token.read_eq hread
  cases hafter : place.after with
  | nil => exact ⟨stopsName_nil, by simp⟩
  | cons d after =>
    have hd : Token.isNamePart d = false ∧ d ≠ '"' := by
      cases hignored : isIgnored d with
      | true =>
        simp only [isIgnored, List.contains_iff_mem, List.mem_cons, List.not_mem_nil,
          or_false] at hignored
        rcases hignored with rfl | rfl | rfl | rfl | rfl | rfl | rfl <;> decide
      | false =>
        rw [hafter, unignored_of_not_ignored hignored] at hunignored
        obtain ⟨rfl, _⟩ := List.cons.inj hunignored
        rcases hc with rfl | rfl <;> decide
    exact ⟨stopsName_cons hd.1, by simpa using hd.2⟩

/-- A number is read from a number literal. -/
theorem number_of_ofToken {token : Token} {value : Value} {chars : List Char}
    (h : Value.ofToken? token = some value) (hnumber : value.token? = some (.number chars)) :
    ∃ literal, token = .number literal := by
  cases token with
  | punctuator | ellipsis => exact absurd h (by simp [Value.ofToken?])
  | number literal => exact ⟨literal, rfl⟩
  | name name =>
    obtain rfl := Option.some.inj h
    rw [Value.ofName] at hnumber
    split_ifs at hnumber <;> exact absurd hnumber (by simp [Value.token?])
  | string text | block text =>
    obtain ⟨decoded, _, rfl⟩ := Option.map_eq_some_iff.1 h
    have htoken := Option.some.inj hnumber
    rw [stringToken] at htoken
    split_ifs at htoken

/-- What follows a default value stops also the last token that is written of it. -/
theorem stops_after {found : List Definition}
    (htake : Parser.take {} tokens = .ok ⟨found, .outside⟩)
    {room : Nat} (hformed : place.value.Formed room) :
    ∀ token ∈ place.value.tokens.getLast?, token.Stops place.after := by
  intro token htoken
  obtain ⟨hname, hquote⟩ := place.after_begins htake
  by_cases hsingle : place.value.isSingle = true
  · obtain ⟨written, hwritten⟩ := Value.exists_token hsingle
    rw [(Value.tokens_of_token hwritten).1, List.getLast?_singleton] at htoken
    obtain rfl := Option.some.inj htoken
    cases written with
    | name => exact hname
    | string chars =>
      cases chars with
      | nil => exact hquote
      | cons => trivial
    | punctuator | ellipsis | block => trivial
    | number chars =>
      obtain ⟨source, hmiddle, hsource⟩ :=
        ValueReader.exists_token_of_read? place.read_value hsingle
      obtain ⟨literal, rfl⟩ := number_of_ofToken hsource hwritten
      have hreads := place.reads_middle
      rw [hmiddle] at hreads
      obtain ⟨⟩ | ⟨hread, hnil⟩ := hreads
      cases hnil
      exact (Token.read_eq_some_iff.1 hread).2.2
  · generalize place.value = value at *
    cases hformed with
    | list | object =>
      simp only [Value.tokens, List.getLast?_cons, List.getLast?_append] at htoken
      obtain rfl : _ = token := by simpa using htoken
      trivial
    | int | float | string | boolean | null | enumeration => exact absurd rfl hsingle

/-- What can be read of a document where the default value is written as the text of its value. -/
theorem readsThrough_text_iff {found : List Definition}
    (htake : Parser.take {} tokens = .ok ⟨found, .outside⟩) {room : Nat}
    (hformed : place.value.Formed room) (all : List Token) :
    ReadsThrough (place.rewrite place.value.text.toList) all ↔
      (∀ token ∈ place.value.tokens, token.Readable) ∧ all = place.replaced place.value.tokens := by
  have hstops := place.stops_after htake hformed
  rw [readsThrough_rewrite_iff]
  constructor
  · rintro ⟨others, rfl, hothers⟩
    have hreadable := hformed.prints.readable_of_readsThrough hformed.settled hstops hothers
    obtain ⟨later, rfl, hlater⟩ :=
      (hformed.prints.readsOff hreadable hstops).readsThrough_behind hothers
    exact ⟨hreadable, by rw [hlater.unique place.reads_later]; rfl⟩
  · rintro ⟨hreadable, rfl⟩
    obtain ⟨rest, hlater, hend⟩ := place.reads_later
    exact ⟨_, rfl, rest, (hformed.prints.readsOff hreadable hstops).append hlater, hend⟩

end DefaultText

end QueryHooks.Document
