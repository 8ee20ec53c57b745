import QueryHooks.Document.ValueReader
import QueryHooks.Document.ValueText
import QueryHooks.Proofs.Decimal.Nearest
import QueryHooks.Proofs.Document.BlockTexts
import QueryHooks.Proofs.Document.Brackets
import QueryHooks.Proofs.Document.NumberTexts
import QueryHooks.Proofs.Document.QuotedTexts

/-!
# Tokens of values

The tokens in which a value is written, and what the reader of values makes of them: each single
token is read by itself, the items of a list and the fields of an object are read one after the
other, and the fields are in order already.  The values that can be read are those whose numbers are
in range, whose names are names and whose fields are in order, with no more brackets around each
part than there was room for.

Main results:

- Definition `Value.tokens`: the tokens in which a value is written.
- Definition `Value.reread`: the value that is read from these tokens.
- Definition `Value.Formed`: a value that can be read with some room for brackets.
- Theorem `ValueReader.read?_tokens`: from the tokens of a value, the reader gets what is read again
  of it.
- Theorem `ValueReader.formed_step`: each token keeps what is read formed.
- Theorem `ValueReader.formed_of_read?`: a value that is read is formed.
-/

namespace QueryHooks.Document

/-! ## Reading with a step function -/

/-- What a reader gives after some tokens, and the tokens that it leaves. -/
def Progress.read? {ρ α : Type} (step : ρ → Token → Option (Progress ρ α)) :
    Progress ρ α → List Token → Option (α × List Token)
  | .done result, tokens => some (result, tokens)
  | .more _, [] => none
  | .more reader, token :: tokens => (step reader token).bind fun progress =>
    read? step progress tokens

@[simp]
theorem Progress.read?_done {ρ α : Type} {step : ρ → Token → Option (Progress ρ α)} (result : α)
    (tokens : List Token) : (done result).read? step tokens = some (result, tokens) := by
  cases tokens <;> rfl

/-- What is read depends on the tokens that are taken, but not on those that are left. -/
theorem Progress.exists_taken {ρ α : Type} {step : ρ → Token → Option (Progress ρ α)}
    {progress : Progress ρ α} {tokens rest : List Token} {result : α}
    (h : progress.read? step tokens = some (result, rest)) :
    ∃ taken, tokens = taken ++ rest ∧
      ∀ other, progress.read? step (taken ++ other) = some (result, other) := by
  induction tokens generalizing progress with
  | nil =>
    cases progress with
    | more reader => exact absurd h (by simp [read?])
    | done found =>
      obtain ⟨rfl, rfl⟩ := Prod.mk.inj (Option.some.inj h)
      exact ⟨[], rfl, fun other => read?_done found other⟩
  | cons token tokens ih =>
    cases progress with
    | more reader =>
      obtain ⟨next, hnext, hread⟩ := Option.bind_eq_some_iff.1 h
      obtain ⟨taken, rfl, hother⟩ := ih hread
      refine ⟨token :: taken, rfl, fun other => ?_⟩
      rw [List.cons_append, read?, hnext]
      exact hother other
    | done found =>
      obtain ⟨rfl, rfl⟩ := Prod.mk.inj (Option.some.inj h)
      exact ⟨[], rfl, fun other => read?_done found other⟩

/-! ## Tokens -/

/-- The token of a string. -/
def stringToken (value : List Char) : Token :=
  if fitsBlock value then .block (blockChars (Text.lines value))
  else .string (value.flatMap escapeInQuotes)

namespace Value

/-- The token of a value that is written as a single one. -/
def token? : Value → Option Token
  | int value => some (.number (toString value).toList)
  | float (.infinite false) => some (.name "inf".toList)
  | float value => some (.number value.text.toList)
  | string value => some (stringToken value)
  | boolean true => some (.name "true".toList)
  | boolean false => some (.name "false".toList)
  | null => some (.name "null".toList)
  | enumeration name => some (.name name.toList)
  | reference _ | list _ | object _ => none

mutual

/-- The tokens in which a value is written. -/
def tokens : Value → List Token
  | reference name => [.punctuator '$', .name name.toList]
  | list items => .punctuator '[' :: (itemTokens items ++ [.punctuator ']'])
  | object fields => .punctuator '\x7b' :: (fieldTokens fields ++ [.punctuator '\x7d'])
  | value => value.token?.toList

/-- The tokens of the items of a list. -/
def itemTokens : List Value → List Token
  | [] => []
  | item :: items => item.tokens ++ itemTokens items

/-- The tokens of the fields of an object. -/
def fieldTokens : List (String × Value) → List Token
  | [] => []
  | (name, value) :: fields =>
    .name name.toList :: .punctuator ':' :: (value.tokens ++ fieldTokens fields)

end

mutual

/-- The value that is read from the tokens of a value. -/
def reread : Value → Option Value
  | list items => (rereadItems items).map list
  | object fields => (rereadFields fields).map object
  | value => value.token?.bind ofToken?

/-- The items that are read from the tokens of the items of a list. -/
def rereadItems : List Value → Option (List Value)
  | [] => some []
  | item :: items => item.reread.bind fun another => (rereadItems items).map (another :: ·)

/-- The fields that are read from the tokens of the fields of an object. -/
def rereadFields : List (String × Value) → Option (List (String × Value))
  | [] => some []
  | (name, value) :: fields =>
    value.reread.bind fun another => (rereadFields fields).map ((name, another) :: ·)

end

/-- Whether a value is written as a single token. -/
def isSingle : Value → Bool
  | reference _ | list _ | object _ => false
  | _ => true

/-- A single value has a token. -/
theorem exists_token {value : Value} (h : value.isSingle = true) :
    ∃ token, value.token? = some token := by
  cases value with
  | reference | list | object => exact absurd h (by simp [isSingle])
  | int | string | null | enumeration => exact ⟨_, rfl⟩
  | float value =>
    cases value with
    | finite => exact ⟨_, rfl⟩
    | infinite negative => cases negative <;> exact ⟨_, rfl⟩
  | boolean value => cases value <;> exact ⟨_, rfl⟩

/-- A value of a single token is not written as a punctuation character. -/
theorem ne_punctuator_of_token {value : Value} {token : Token} (h : value.token? = some token)
    (c : Char) :
    token ≠ .punctuator c := by
  rintro rfl
  rw [token?.eq_def] at h
  split at h
  case h_4 chars =>
    rw [Option.some.injEq, stringToken] at h
    split at h <;> exact absurd h (by simp)
  all_goals exact absurd h (by simp)

/-- A value of a single token is read from it. -/
theorem tokens_of_token {value : Value} {token : Token} (h : value.token? = some token) :
    value.tokens = [token] ∧ value.reread = ofToken? token := by
  cases value with
  | reference | list | object => exact absurd h (by simp [token?])
  | int | float | string | boolean | null | enumeration => simp [tokens, reread, h]

/-- A value that can be read where `room` more brackets may be opened. -/
inductive Formed : Nat → Value → Prop where
  | int (room : Nat) {value : Int} (h : Decimal.fitsSigned 63 value = true) :
      Formed room (.int value)
  | float (room : Nat) {value : Decimal.Binary64} (h : value.IsNormal) : Formed room (.float value)
  | string (room : Nat) (value : List Char) : Formed room (.string value)
  | boolean (room : Nat) (value : Bool) : Formed room (.boolean value)
  | null (room : Nat) : Formed room .null
  | enumeration (room : Nat) {name : String} (hname : IsName name.toList)
      (h : ofName name.toList = .enumeration name) : Formed room (.enumeration name)
  | list {room : Nat} {items : List Value} (h : ∀ item ∈ items, Formed room item) :
      Formed (room + 1) (.list items)
  | object {room : Nat} {fields : List (String × Value)}
      (hnames : ∀ field ∈ fields, IsName field.1.toList) (hsorted : fields.Pairwise (·.1 < ·.1))
      (h : ∀ field ∈ fields, Formed room field.2) : Formed (room + 1) (.object fields)

end Value

/-! ## Values that are read -/

namespace ValueReader

/-- The value that comes of some tokens, and the tokens that are left. -/
def read? : Progress ValueReader Value → List Token → Option (Value × List Token) :=
  Progress.read? (step false)

/-- Reading a value takes one token and goes on with the others. -/
theorem read?_cons (reader : ValueReader) (token : Token) (tokens : List Token) :
    read? (.more reader) (token :: tokens) = (reader.step false token).bind (read? · tokens) :=
  rfl

@[simp]
theorem read?_done (value : Value) (tokens : List Token) :
    read? (.done value) tokens = some (value, tokens) :=
  Progress.read?_done value tokens

/-- A field with the greatest name is put at the end. -/
theorem insertField_of_lt {name : String} {fields : List (String × Value)} (value : Value)
    (h : ∀ field ∈ fields, field.1 < name) :
    Value.insertField name value fields = fields ++ [(name, value)] := by
  induction fields with
  | nil => rfl
  | cons field fields ih =>
    have hlt := h field List.mem_cons_self
    rw [Value.insertField, if_neg (lt_asymm hlt), if_neg (fun heq => by
      rw [heq] at hlt
      exact String.lt_irrefl _ hlt), ih fun other hother => h other (List.mem_cons_of_mem _ hother)]
    rfl

/-- A value of a single token is read from what that token stands for. -/
theorem stepValue_of_token {value : Value} {token : Token} (h : value.token? = some token)
    (frames : List ValueFrame) :
    stepValue false frames token = (Value.ofToken? token).map (close · frames) := by
  cases token with
  | punctuator c => exact absurd rfl (Value.ne_punctuator_of_token h c)
  | ellipsis | name | number | string | block => rfl

/-- A single value is read back as what its token is read as. -/
theorem read?_single {value : Value} (h : value.isSingle = true) (frames : List ValueFrame)
    (later : List Token) :
    read? (.more (.value frames)) (value.tokens ++ later) =
      value.reread.bind fun another => read? (close another frames) later := by
  obtain ⟨token, htoken⟩ := Value.exists_token h
  obtain ⟨htokens, hreread⟩ := Value.tokens_of_token htoken
  rw [htokens, hreread, List.singleton_append, read?_cons, step, stepValue_of_token htoken,
    Option.bind_map]
  rfl

/-- The items of a list are read in order up to the bracket. -/
theorem read?_itemTokens {items : List Value}
    (h : ∀ item ∈ items, ∀ frames later, read? (.more (.value frames)) (item.tokens ++ later) =
      item.reread.bind fun another => read? (close another frames) later)
    (found : List Value) (frames : List ValueFrame) (later : List Token) :
    read? (.more (.value (.list found :: frames)))
      (Value.itemTokens items ++ .punctuator ']' :: later) =
      (Value.rereadItems items).bind fun others =>
        read? (close (.list (found.reverse ++ others)) frames) later := by
  induction items generalizing found with
  | nil => simp [Value.itemTokens, Value.rereadItems, read?_cons, step, stepValue]
  | cons item items ih =>
    rw [Value.itemTokens, List.append_assoc, h item List.mem_cons_self, Value.rereadItems,
      Option.bind_assoc]
    congr 1
    funext another
    rw [close, ih (fun other hother => h other (List.mem_cons_of_mem _ hother)), Option.bind_map]
    simp

/--
The fields of an object are read in order up to the brace, if they are in the order of their names.
-/
theorem read?_fieldTokens {fields : List (String × Value)}
    (h : ∀ field ∈ fields, ∀ frames later, read? (.more (.value frames)) (field.2.tokens ++ later) =
      field.2.reread.bind fun another => read? (close another frames) later)
    (hsorted : fields.Pairwise (·.1 < ·.1)) {found : List (String × Value)}
    (hfound : ∀ field ∈ fields, ∀ other ∈ found, other.1 < field.1) (frames : List ValueFrame)
    (later : List Token) :
    read? (.more (.fieldName found frames))
      (Value.fieldTokens fields ++ .punctuator '\x7d' :: later) =
      (Value.rereadFields fields).bind fun others =>
        read? (close (.object (found ++ others)) frames) later := by
  induction fields generalizing found with
  | nil => simp [Value.fieldTokens, Value.rereadFields, read?_cons, step]
  | cons field fields ih =>
    obtain ⟨name, value⟩ := field
    obtain ⟨hfirst, hsorted⟩ := List.pairwise_cons.1 hsorted
    rw [Value.fieldTokens, List.cons_append, List.cons_append, List.append_assoc, read?_cons, step,
      Option.bind_some, read?_cons, step, Option.bind_some, h _ List.mem_cons_self,
      Value.rereadFields, Option.bind_assoc]
    congr 1
    funext another
    rw [close, String.ofList_toList, insertField_of_lt another (hfound _ List.mem_cons_self),
      ih (fun other hother => h other (List.mem_cons_of_mem _ hother)) hsorted, Option.bind_map]
    · simp
    · intro other hother before hbefore
      rcases List.mem_append.1 hbefore with hbefore | hbefore
      · exact hfound other (List.mem_cons_of_mem _ hother) before hbefore
      · rw [List.mem_singleton.1 hbefore]
        exact hfirst other hother

/-- From the tokens of a value, the reader gets what is read again of that value. -/
theorem read?_tokens {room : Nat} {value : Value} (h : value.Formed room) (frames : List ValueFrame)
    (later : List Token) :
    read? (.more (.value frames)) (value.tokens ++ later) =
      value.reread.bind fun another => read? (close another frames) later := by
  induction h generalizing frames later with
  | list h ih =>
    rw [Value.tokens, List.cons_append, List.append_assoc, List.singleton_append, read?_cons,
      Value.reread, Option.bind_map]
    exact read?_itemTokens ih [] frames later
  | object hnames hsorted h ih =>
    rw [Value.tokens, List.cons_append, List.append_assoc, List.singleton_append, read?_cons,
      Value.reread, Option.bind_map]
    exact read?_fieldTokens ih hsorted (by simp) frames later
  | int | float | string | boolean | null | enumeration =>
    exact read?_single rfl frames later

/-! ## Values that are read -/

/-- The fields of an object are in order, and their values are formed. -/
structure FieldsFormed (room : Nat) (fields : List (String × Value)) : Prop where
  names : ∀ field ∈ fields, IsName field.1.toList
  sorted : fields.Pairwise (·.1 < ·.1)
  values : ∀ field ∈ fields, field.2.Formed room

/-- The lists and objects around a value where `room` more brackets may be opened. -/
def FramesFormed : Nat → List ValueFrame → Prop
  | _, [] => True
  | room, .list items :: frames =>
    (∀ item ∈ items, item.Formed room) ∧ FramesFormed (room + 1) frames
  | room, .field name fields :: frames =>
    IsName name.toList ∧ FieldsFormed room fields ∧ FramesFormed (room + 1) frames

/-- What was read of a value where `room` more brackets may be opened. -/
def Formed (room : Nat) : ValueReader → Prop
  | value frames => FramesFormed room frames
  | reference _ => False
  | fieldName fields frames => FieldsFormed room fields ∧ FramesFormed (room + 1) frames
  | fieldColon name fields frames =>
    IsName name.toList ∧ FieldsFormed room fields ∧ FramesFormed (room + 1) frames

/-- What came of a token behind which `room` more brackets may be opened. -/
def ProgressFormed (room : Nat) : Progress ValueReader Value → Prop
  | .more reader => reader.Formed room
  | .done result => result.Formed room

/-- A field of an object with one more field is the new one or an old one. -/
theorem mem_insertField {name : String} {value : Value} {fields : List (String × Value)}
    {field : String × Value} (h : field ∈ Value.insertField name value fields) :
    field = (name, value) ∨ field ∈ fields := by
  fun_induction Value.insertField name value fields with
  | case1 => simpa using h
  | case2 | case3 => simp at h ⊢; tauto
  | case4 first fields hlt hne ih => simp at h ⊢; tauto

/-- A formed field keeps the fields of an object formed and in order. -/
theorem FieldsFormed.insert {room : Nat} {name : String} {value : Value}
    {fields : List (String × Value)}
    (h : FieldsFormed room fields) (hname : IsName name.toList) (hvalue : value.Formed room) :
    FieldsFormed room (Value.insertField name value fields) where
  names := by
    intro field hfield
    rcases mem_insertField hfield with rfl | hfield
    · exact hname
    · exact h.names field hfield
  sorted := by
    have hsorted := h.sorted
    clear h
    fun_induction Value.insertField name value fields with
    | case1 => simp
    | case2 first fields hlt =>
      refine List.pairwise_cons.2 ⟨?_, hsorted⟩
      intro other hother
      rcases List.mem_cons.1 hother with rfl | hother
      · exact hlt
      · exact lt_trans hlt ((List.pairwise_cons.1 hsorted).1 other hother)
    | case3 first fields hlt =>
      rename_i heq
      obtain ⟨hfirst, hlater⟩ := List.pairwise_cons.1 hsorted
      exact List.pairwise_cons.2 ⟨fun other hother => heq ▸ hfirst other hother, hlater⟩
    | case4 first fields hlt hne ih =>
      obtain ⟨hfirst, hlater⟩ := List.pairwise_cons.1 hsorted
      refine List.pairwise_cons.2 ⟨?_, ih hlater⟩
      intro other hother
      rcases mem_insertField hother with rfl | hother
      · exact lt_of_le_of_ne (not_lt.1 hlt) (Ne.symm hne)
      · exact hfirst other hother
  values := by
    intro field hfield
    rcases mem_insertField hfield with rfl | hfield
    · exact hvalue
    · exact h.values field hfield

/-- A formed value inside of formed lists and objects gives a formed reader. -/
theorem formed_close {room : Nat} {result : Value} {frames : List ValueFrame}
    (h : result.Formed room) (hframes : FramesFormed room frames) :
    ProgressFormed room (close result frames) := by
  match frames, hframes with
  | [], _ => exact h
  | .list items :: frames, ⟨hitems, hframes⟩ =>
    refine ⟨?_, hframes⟩
    intro item hitem
    rcases List.mem_cons.1 hitem with rfl | hitem
    · exact h
    · exact hitems item hitem
  | .field name fields :: frames, ⟨hname, hfields, hframes⟩ =>
    exact ⟨hfields.insert hname h, hframes⟩

/-- The value of a single token is formed, however many brackets may be opened. -/
theorem formed_of_token {token : Token} {value : Value} (room : Nat) (hreadable : token.Readable)
    (h : Value.ofToken? token = some value) : value.Formed room := by
  cases token with
  | punctuator | ellipsis => exact absurd h (by simp [Value.ofToken?])
  | name chars =>
    obtain rfl := Option.some.inj h
    rw [Value.ofName]
    split_ifs with htrue hfalse hnull
    · exact .boolean room true
    · exact .boolean room false
    · exact .null room
    · have hname : Value.ofName chars = .enumeration (String.ofList chars) := by
        rw [Value.ofName, if_neg htrue, if_neg hfalse, if_neg hnull]
      exact .enumeration room (by rwa [String.toList_ofList]) (by rwa [String.toList_ofList])
  | number chars =>
    obtain ⟨number, _, hnumber⟩ := Option.bind_eq_some_iff.1 h
    rw [Value.ofNumber?] at hnumber
    split_ifs at hnumber with hinteger hfits
    · obtain rfl := Option.some.inj hnumber
      exact .int room hfits
    · obtain rfl := Option.some.inj hnumber
      exact .float room (Decimal.Binary64.isNormal_ofDecimal _ _ _)
  | string chars | block chars =>
    obtain ⟨decoded, _, rfl⟩ := Option.map_eq_some_iff.1 h
    exact .string room decoded

/-- What begins a value keeps a reader formed, with the room that the token leaves. -/
theorem formed_stepValue {room behind : Nat} {frames : List ValueFrame} {token : Token}
    {progress : Progress ValueReader Value} (hframes : FramesFormed room frames)
    (hreadable : token.Readable) (hroom : token.room room = some behind)
    (h : stepValue false frames token = some progress) : ProgressFormed behind progress := by
  unfold stepValue at h
  split at h
  · obtain rfl := Option.some.inj h
    obtain rfl : room = behind + 1 := (Token.room_eq hroom).symm
    exact ⟨by simp, hframes⟩
  · obtain rfl := Option.some.inj h
    obtain rfl : room = behind + 1 := (Token.room_eq hroom).symm
    exact ⟨⟨by simp, by simp, by simp⟩, hframes⟩
  · split at h
    · obtain rfl := Option.some.inj h
      obtain rfl : behind = room + 1 := Token.room_eq hroom
      refine formed_close (.list ?_) hframes.2
      simpa using hframes.1
    · exact absurd h (by simp)
  · exact absurd h (by simp)
  · obtain ⟨value, hvalue, rfl⟩ := Option.map_eq_some_iff.1 h
    obtain rfl : behind = room := by
      cases token with
      | punctuator | ellipsis => exact absurd hvalue (by simp [Value.ofToken?])
      | name | number | string | block => exact (Option.some.inj hroom).symm
    exact formed_close (formed_of_token _ hreadable hvalue) hframes

/-- What is read stays formed with each token, where the token changes the room. -/
theorem formed_step {room behind : Nat} {reader : ValueReader} {token : Token}
    {progress : Progress ValueReader Value} (hreader : reader.Formed room)
    (hreadable : token.Readable) (hroom : token.room room = some behind)
    (h : reader.step false token = some progress) : ProgressFormed behind progress := by
  unfold step at h
  split at h
  · exact formed_stepValue hreader hreadable hroom h
  · exact hreader.elim
  · obtain rfl := Option.some.inj h
    obtain rfl := Option.some.inj hroom
    exact ⟨by rwa [String.toList_ofList], hreader⟩
  · obtain rfl := Option.some.inj h
    obtain rfl : behind = room + 1 := Token.room_eq hroom
    obtain ⟨⟨hnames, hsorted, hvalues⟩, hframes⟩ := hreader
    exact formed_close (.object hnames hsorted hvalues) hframes
  · obtain rfl := Option.some.inj h
    obtain rfl : behind = room := Token.room_eq hroom
    exact hreader
  · exact absurd h (by simp)

/--
A value that is read is formed where all the brackets around it are closed, and there is as much
room behind it as there.
-/
theorem formed_of_read? {room behind : Nat} {progress : Progress ValueReader Value}
    {tokens rest : List Token} {value : Value} (hprogress : ProgressFormed room progress)
    (hreadable : ∀ token ∈ tokens, token.Readable)
    (hroom : tokens.foldlM Token.room room = some behind)
    (h : read? progress tokens = some (value, rest)) :
    value.Formed (room + progress.depth depth) ∧
      rest.foldlM Token.room (room + progress.depth depth) = some behind := by
  cases progress with
  | done found =>
    obtain ⟨rfl, rfl⟩ := Prod.mk.inj (Option.some.inj ((read?_done found tokens).symm.trans h))
    exact ⟨hprogress, hroom⟩
  | more reader =>
    induction tokens generalizing room reader with
    | nil => exact absurd h (by simp [read?, Progress.read?])
    | cons token tokens ih =>
      rw [List.foldlM_cons] at hroom
      obtain ⟨between, hbetween, hroom⟩ := Option.bind_eq_some_iff.1 hroom
      obtain ⟨next, hnext, hread⟩ := Option.bind_eq_some_iff.1 h
      have hnextFormed := formed_step hprogress (hreadable _ List.mem_cons_self) hbetween hnext
      -- The token changes the room as much as the number of brackets that are open in the value.
      have hsame : room + reader.depth = between + next.depth depth := by
        have htoken := Token.room_eq hbetween
        have hbalances := balances_step hnext
        rw [Balances] at hbalances
        omega
      change value.Formed (room + reader.depth) ∧
        rest.foldlM Token.room (room + reader.depth) = some behind
      rw [hsame]
      cases next with
      | done found =>
        obtain ⟨rfl, rfl⟩ :=
          Prod.mk.inj (Option.some.inj ((read?_done found tokens).symm.trans hread))
        exact ⟨hnextFormed, hroom⟩
      | more later =>
        exact ih (fun other hother => hreadable other (List.mem_cons_of_mem _ hother)) hroom later
          hnextFormed
          hread

end ValueReader

/-! ## Nesting of values -/

namespace Value

/-- The items of a list have their tokens one behind the other. -/
theorem itemTokens_eq (items : List Value) : itemTokens items = items.flatMap tokens := by
  induction items with
  | nil => rfl
  | cons item items ih => rw [itemTokens, ih, List.flatMap_cons]

/-- Each field of an object has its name and a colon in front of its value. -/
theorem fieldTokens_eq (fields : List (String × Value)) :
    fieldTokens fields =
      fields.flatMap fun field => .name field.1.toList :: .punctuator ':' :: field.2.tokens := by
  induction fields with
  | nil => rfl
  | cons field fields ih =>
    rw [fieldTokens, ih, List.flatMap_cons, List.cons_append, List.cons_append]

/-- A single value opens no bracket. -/
theorem nestsWithin_single {value : Value} (h : value.isSingle = true) (room : Nat) :
    NestsWithin room value.tokens := by
  intro left _
  obtain ⟨token, htoken⟩ := exists_token h
  rw [(tokens_of_token htoken).1]
  cases token with
  | punctuator c => exact absurd rfl (ne_punctuator_of_token htoken c)
  | ellipsis | name | number | string | block => rfl

/-- A formed value nests no deeper than there is room for. -/
theorem Formed.nestsWithin {room : Nat} {value : Value} (h : value.Formed room) :
    NestsWithin room value.tokens := by
  induction h with
  | list h ih =>
    rw [tokens, itemTokens_eq, ← List.cons_append]
    exact (NestsWithin.flatMap ih).bracket (by decide) (by decide)
  | object hnames hsorted h ih =>
    rw [tokens, fieldTokens_eq, ← List.cons_append]
    refine (NestsWithin.flatMap fun field hfield => ?_).bracket (by decide) (by decide)
    exact ((ih field hfield).cons_punctuator (by decide) (by decide)).cons_name
  | int room | float room | string room | boolean room | null room | enumeration room =>
    exact nestsWithin_single rfl room

end Value

end QueryHooks.Document
