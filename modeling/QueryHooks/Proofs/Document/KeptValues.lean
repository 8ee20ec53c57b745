import QueryHooks.Proofs.Document.ValueTexts

/-!
# Values that are kept

A value is kept if the value that is read from its text has the same text again.  This can be told
from its numbers and strings one by one: a number whose text has no fraction is read as a whole
number and has to fit into 64 bits, a string in quotes is kept character by character, and a block
loses nothing.

Main results:

- Definition `Value.isKept`: whether the text of a value stands for a value with the same text.
- Theorem `Value.tokens_eq_of_text_eq`: the tokens of a value can be told from its text.
- Theorem `Value.exists_reread_of_isKept`: a value that is kept is read again with the same text.
- Theorem `Value.isKept_of_tokens_eq`: a value that is read again with the same tokens is kept.
- Theorem `Value.isKept_iff`: a value is kept exactly if a value with the same text is read from its
  tokens.
-/

namespace QueryHooks.Document

/-! ## The condition -/

/--
A number is kept if its text has a fraction, or is that of a whole number of 64 bits with no sign in
front of zero; and what is too large is kept unless it is negative.
-/
def keepsNumber : Decimal.Binary64 → Bool
  | .finite negative significand exponent =>
    let (digits, scale) := Decimal.shortest significand exponent
    (digits != 0 && scale < 0) ||
      (Decimal.fitsSigned 63 (signed negative (digits * 10 ^ scale.toNat)) &&
        !(negative && digits == 0))
  | .infinite negative => !negative

mutual

/-- Whether the text of a value stands for a value with the same text. -/
def Value.isKept : Value → Bool
  | .float value => keepsNumber value
  | .string value => if fitsBlock value then keepsInBlock value else value.all keepsInQuotes
  | .list items => keepsItems items
  | .object fields => keepsFields fields
  | .reference _ | .int _ | .boolean _ | .null | .enumeration _ => true

/-- Whether all items of a list are kept. -/
def keepsItems : List Value → Bool
  | [] => true
  | item :: items => item.isKept && keepsItems items

/-- Whether the values of all fields of an object are kept. -/
def keepsFields : List (String × Value) → Bool
  | [] => true
  | (_, value) :: fields => value.isKept && keepsFields fields

end

namespace Value

/-! ## Values with the same text -/

/-- The tokens of a value can be told from its text. -/
theorem tokens_eq_of_text_eq {room others : Nat} {value other : Value} (h : value.Formed room)
    (hother : other.Formed others) (hreadable : ∀ token ∈ value.tokens, token.Readable)
    (htext : other.text = value.text) : other.tokens = value.tokens := by
  have hstops (tokens : List Token) : ∀ token ∈ tokens.getLast?, token.Stops [] :=
    fun token _ => token.stops_nil
  have hthrough : ReadsThrough (value.text.toList ++ []) value.tokens :=
    ⟨[], h.prints.readsOff hreadable (hstops _), rfl⟩
  rw [← htext] at hthrough
  have hreadableOther := hother.prints.readable_of_readsThrough hother.settled (hstops _) hthrough
  obtain ⟨later, heq, rest, hlater, _⟩ :=
    (hother.prints.readsOff hreadableOther (hstops _)).readsThrough_behind hthrough
  cases hlater with
  | nil => simpa using heq.symm
  | cons hread _ => exact absurd hread (by simp [unignored, skipIgnored, Token.read])

/-! ## Values of a single token -/

/--
A finite number is kept where its shortest text has a fraction, or is an integer of 64 bits but not
the negative zero.
-/
theorem isKept_finite {negative : Bool} {significand digits : Nat} {exponent scale : Int}
    (h : Decimal.shortest significand exponent = (digits, scale)) :
    isKept (.float (.finite negative significand exponent)) = true ↔
      (digits ≠ 0 ∧ scale < 0) ∨
        (Decimal.fitsSigned 63 (signed negative (digits * 10 ^ scale.toNat)) = true ∧
          ¬(negative = true ∧ digits = 0)) := by
  cases negative <;> simp [isKept, keepsNumber, h]

/--
A floating point number without a fraction is read again as a whole number, if it fits into 64 bits.
-/
theorem ofToken?_text_whole {negative : Bool} {significand digits : Nat} {exponent scale : Int}
    (h : Decimal.shortest significand exponent = (digits, scale))
    (hwhole : digits = 0 ∨ 0 ≤ scale) :
    ofToken? (.number (Decimal.Binary64.finite negative significand exponent).text.toList) =
      if Decimal.fitsSigned 63 (signed negative (digits * 10 ^ scale.toNat)) then
        some (.int (signed negative (digits * 10 ^ scale.toNat)))
      else none := by
  rw [toList_text_whole h hwhole, ofToken?_wholeText]

/--
A whole number is written like the floating point number, unless its sign stands in front of zero.
-/
theorem text_signed_eq_iff {negative : Bool} {significand digits : Nat} {exponent scale : Int}
    (h : Decimal.shortest significand exponent = (digits, scale))
    (hwhole : digits = 0 ∨ 0 ≤ scale) :
    (toString (signed negative (digits * 10 ^ scale.toNat))).toList =
        (Decimal.Binary64.finite negative significand exponent).text.toList ↔
      ¬(negative = true ∧ digits = 0) := by
  rw [toList_text_whole h hwhole, toList_toString_signed]
  simp

/-- A number that is kept is read again as a number with the same text. -/
theorem exists_reread_float {value : Decimal.Binary64} (hnormal : value.IsNormal)
    (hkept : isKept (.float value) = true) :
    ∃ other, reread (.float value) = some other ∧ other.text = value.text := by
  cases value with
  | infinite negative =>
    cases negative with
    | true => exact absurd hkept (by decide)
    | false =>
      exact ⟨.enumeration "inf", rfl, rfl⟩
  | finite negative significand exponent =>
    obtain ⟨⟨digits, scale⟩, hshortest⟩ :
        ∃ decimal, Decimal.shortest significand exponent = decimal :=
      ⟨_, rfl⟩
    change ∃ other, ofToken? (.number _) = some other ∧ _
    by_cases hfraction : digits ≠ 0 ∧ scale < 0
    · exact ⟨_, ofToken?_of_fraction hshortest hnormal hfraction.1 hfraction.2, rfl⟩
    · have hwhole : digits = 0 ∨ 0 ≤ scale := by omega
      obtain ⟨hfits, hsign⟩ := ((isKept_finite hshortest).1 hkept).resolve_left hfraction
      refine ⟨.int (signed negative (digits * 10 ^ scale.toNat)), ?_, ?_⟩
      · rw [ofToken?_text_whole hshortest hwhole, if_pos hfits]
      · exact String.toList_inj.1 ((text_signed_eq_iff hshortest hwhole).2 hsign)

/-- A string that is kept is read again as a string with the same text. -/
theorem exists_reread_string {value : List Char} (hkept : isKept (.string value) = true) :
    ∃ other, reread (.string value) = some other ∧ other.text = text (.string value) := by
  change ∃ other, ofToken? (stringToken value) = some other ∧ _
  rw [stringToken]
  by_cases hfits : fitsBlock value = true
  · rw [if_pos hfits]
    rw [isKept, if_pos hfits] at hkept
    obtain ⟨read, hread, hagain, hlines⟩ := exists_read_of_keepsInBlock hfits hkept
    refine ⟨.string read, by rw [ofToken?, hread]; rfl, String.toList_inj.1 ?_⟩
    rw [← source_of_token rfl, ← source_of_token rfl, stringToken, stringToken, if_pos hagain,
      if_pos hfits, hlines]
  · rw [if_neg hfits]
    rw [isKept, if_neg hfits, List.all_eq_true] at hkept
    exact ⟨.string value, by rw [ofToken?, decodeQuoted?_flatMap hkept]; rfl, rfl⟩

theorem keepsItems_eq (items : List Value) : keepsItems items = items.all isKept := by
  induction items with
  | nil => rfl
  | cons item items ih => rw [keepsItems, ih, List.all_cons]

theorem keepsFields_eq (fields : List (String × Value)) :
    keepsFields fields = fields.all fun field => field.2.isKept := by
  induction fields with
  | nil => rfl
  | cons field fields ih => rw [keepsFields, ih, List.all_cons]

/-- Where each item of a list is reread with its text, the list is. -/
theorem exists_rereadItems {items : List Value}
    (h : ∀ item ∈ items, ∃ other, item.reread = some other ∧ other.text = item.text) :
    ∃ others, rereadItems items = some others ∧ itemTexts others = itemTexts items := by
  induction items with
  | nil => exact ⟨[], rfl, rfl⟩
  | cons item items ih =>
    obtain ⟨other, hother, htext⟩ := h item List.mem_cons_self
    obtain ⟨others, hothers, htexts⟩ :=
      ih fun later hlater => h later (List.mem_cons_of_mem _ hlater)
    refine ⟨other :: others, by simp [rereadItems, hother, hothers], ?_⟩
    rw [itemTexts, itemTexts, htext, htexts]

/-- Where each field of an object is reread with its text, the object is. -/
theorem exists_rereadFields {fields : List (String × Value)}
    (h : ∀ field ∈ fields, ∃ other, field.2.reread = some other ∧ other.text = field.2.text) :
    ∃ others, rereadFields fields = some others ∧ fieldTexts others = fieldTexts fields := by
  induction fields with
  | nil => exact ⟨[], rfl, rfl⟩
  | cons field fields ih =>
    obtain ⟨other, hother, htext⟩ := h field List.mem_cons_self
    obtain ⟨others, hothers, htexts⟩ :=
      ih fun later hlater => h later (List.mem_cons_of_mem _ hlater)
    refine ⟨(field.1, other) :: others, by simp [rereadFields, hother, hothers], ?_⟩
    rw [fieldTexts, fieldTexts, htext, htexts]

/-- A value that is kept is read again as a value with the same text. -/
theorem exists_reread_of_isKept {room : Nat} {value : Value} (h : value.Formed room)
    (hkept : value.isKept = true) :
    ∃ other, value.reread = some other ∧ other.text = value.text := by
  induction h with
  | @int room value hfits =>
    refine ⟨.int value, ?_, rfl⟩
    change ofToken? (.number (toString value).toList) = _
    rw [toList_toString, ofToken?_wholeText, signed_natAbs, if_pos hfits]
  | float room hnormal => exact exists_reread_float hnormal hkept
  | string room value => exact exists_reread_string hkept
  | boolean room value => cases value <;> exact ⟨_, rfl, rfl⟩
  | null room => exact ⟨_, rfl, rfl⟩
  | @enumeration room name hname hword =>
    refine ⟨.enumeration name, ?_, rfl⟩
    change some (ofName name.toList) = _
    rw [hword]
  | @list room items h ih =>
    obtain ⟨others, hothers, htexts⟩ := exists_rereadItems fun item hitem => ih item hitem
      (List.all_eq_true.1 ((keepsItems_eq items).symm.trans hkept) item hitem)
    refine ⟨.list others, by rw [reread, hothers]; rfl, ?_⟩
    rw [text, text, htexts]
  | @object room fields hnames hsorted h ih =>
    obtain ⟨others, hothers, htexts⟩ := exists_rereadFields fun field hfield => ih field hfield
      (List.all_eq_true.1 ((keepsFields_eq fields).symm.trans hkept) field hfield)
    refine ⟨.object others, by rw [reread, hothers]; rfl, ?_⟩
    rw [text, text, htexts]

/-- A single value that is kept is not written as the negative infinity. -/
theorem negativeInfinity_not_mem_single {room : Nat} {value : Value}
    (hsingle : value.isSingle = true)
    (h : value.Formed room) (hkept : value.isKept = true) : .negativeInfinity ∉ value.tokens := by
  obtain ⟨token, htoken⟩ := exists_token hsingle
  obtain ⟨htokens, hreread⟩ := tokens_of_token htoken
  obtain ⟨other, hother, _⟩ := exists_reread_of_isKept h hkept
  rw [htokens, List.mem_singleton]
  rintro rfl
  have hnone : ofToken? .negativeInfinity = none := by decide
  rw [hreread, hnone] at hother
  exact absurd hother (by simp)

/-- A value that is kept has no negative infinity in it. -/
theorem negativeInfinity_not_mem {room : Nat} {value : Value} (h : value.Formed room)
    (hkept : value.isKept = true) : .negativeInfinity ∉ value.tokens := by
  induction h with
  | int room hfits => exact negativeInfinity_not_mem_single rfl (.int room hfits) hkept
  | float room hnormal => exact negativeInfinity_not_mem_single rfl (.float room hnormal) hkept
  | string room value => exact negativeInfinity_not_mem_single rfl (.string room value) hkept
  | boolean room value => exact negativeInfinity_not_mem_single rfl (.boolean room value) hkept
  | null room => exact negativeInfinity_not_mem_single rfl (.null room) hkept
  | enumeration room hname hword =>
    exact negativeInfinity_not_mem_single rfl (.enumeration room hname hword) hkept
  | @list room items h ih =>
    have hitems := List.all_eq_true.1 ((keepsItems_eq items).symm.trans hkept)
    simp only [tokens, itemTokens_eq, List.mem_cons, List.mem_append, List.mem_flatMap,
      List.not_mem_nil, or_false, not_or, not_exists, not_and]
    exact ⟨by simp [Token.negativeInfinity], fun item hitem => ih item hitem (hitems item hitem),
      by simp [Token.negativeInfinity]⟩
  | @object room fields hnames hsorted h ih =>
    have hfields := List.all_eq_true.1 ((keepsFields_eq fields).symm.trans hkept)
    simp only [tokens, fieldTokens_eq, List.mem_cons, List.mem_append, List.mem_flatMap,
      List.not_mem_nil, or_false, not_or, not_exists, not_and]
    exact ⟨by simp [Token.negativeInfinity], fun field hfield =>
      ⟨by simp [Token.negativeInfinity], by simp [Token.negativeInfinity],
        ih field hfield (hfields field hfield)⟩, by simp [Token.negativeInfinity]⟩

/-- The tokens of a value that is kept are readable. -/
theorem Formed.readable_of_isKept {room : Nat} {value : Value} (h : value.Formed room)
    (hkept : value.isKept = true) : ∀ token ∈ value.tokens, token.Readable := by
  intro token htoken
  refine (h.settled token htoken).resolve_right ?_
  rintro rfl
  exact negativeInfinity_not_mem h hkept htoken

/-! ## Values that are not kept -/

/-- A value of one token is written as one. -/
theorem isSingle_of_ofToken {token : Token} {value : Value} (h : ofToken? token = some value) :
    value.isSingle = true := by
  cases token with
  | punctuator | ellipsis => exact absurd h (by simp [ofToken?])
  | name chars =>
    obtain rfl := Option.some.inj h
    rw [ofName]
    split_ifs <;> rfl
  | number chars =>
    obtain ⟨number, _, hnumber⟩ := Option.bind_eq_some_iff.1 h
    rw [ofNumber?] at hnumber
    split_ifs at hnumber <;> obtain rfl := Option.some.inj hnumber <;> rfl
  | string chars | block chars =>
    obtain ⟨decoded, _, rfl⟩ := Option.map_eq_some_iff.1 h
    rfl

theorem length_tokens_of_single {value : Value} (h : value.isSingle = true) :
    value.tokens.length = 1 := by
  obtain ⟨token, htoken⟩ := exists_token h
  rw [(tokens_of_token htoken).1, List.length_singleton]

/-- Rereading a single value does not change the number of its tokens. -/
theorem length_tokens_of_reread_single {value other : Value} (h : value.isSingle = true)
    (hreread : value.reread = some other) : other.tokens.length = value.tokens.length := by
  obtain ⟨token, htoken⟩ := exists_token h
  rw [(tokens_of_token htoken).2] at hreread
  rw [length_tokens_of_single h, length_tokens_of_single (isSingle_of_ofToken hreread)]

/-- The items that are read again are those of the items one by one. -/
theorem forall₂_rereadItems {items others : List Value} (h : rereadItems items = some others) :
    List.Forall₂ (fun item other => item.reread = some other) items others := by
  induction items generalizing others with
  | nil =>
    obtain rfl := Option.some.inj h
    exact .nil
  | cons item items ih =>
    obtain ⟨other, hother, hbehind⟩ := Option.bind_eq_some_iff.1 h
    obtain ⟨later, hlater, rfl⟩ := Option.map_eq_some_iff.1 hbehind
    exact .cons hother (ih hlater)

/-- The fields that are read again have the same names, and their values are read one by one. -/
theorem forall₂_rereadFields {fields others : List (String × Value)}
    (h : rereadFields fields = some others) :
    List.Forall₂ (fun field other => other.1 = field.1 ∧ field.2.reread = some other.2) fields
      others := by
  induction fields generalizing others with
  | nil =>
    obtain rfl := Option.some.inj h
    exact .nil
  | cons field fields ih =>
    obtain ⟨other, hother, hbehind⟩ := Option.bind_eq_some_iff.1 h
    obtain ⟨later, hlater, rfl⟩ := Option.map_eq_some_iff.1 hbehind
    exact .cons ⟨rfl, hother⟩ (ih hlater)

/-- What is read again of a value has as many tokens. -/
theorem length_tokens_of_reread {room : Nat} {value other : Value} (h : value.Formed room)
    (hreread : value.reread = some other) : other.tokens.length = value.tokens.length := by
  induction h generalizing other with
  | int | float | string | boolean | null | enumeration =>
    exact length_tokens_of_reread_single rfl hreread
  | @list room items h ih =>
    obtain ⟨others, hothers, rfl⟩ := Option.map_eq_some_iff.1 hreread
    have hlength : (itemTokens others).length = (itemTokens items).length := by
      have hall := forall₂_rereadItems hothers
      clear hothers hreread h
      induction hall with
      | nil => rfl
      | cons hitem _ ihLater =>
        rw [itemTokens, itemTokens, List.length_append, List.length_append,
          ih _ List.mem_cons_self hitem,
          ihLater fun later hlater => ih later (List.mem_cons_of_mem _ hlater)]
    simp [tokens, hlength]
  | @object room fields hnames hsorted h ih =>
    obtain ⟨others, hothers, rfl⟩ := Option.map_eq_some_iff.1 hreread
    have hlength : (fieldTokens others).length = (fieldTokens fields).length := by
      have hall := forall₂_rereadFields hothers
      clear hothers hreread h hnames hsorted
      induction hall with
      | nil => rfl
      | cons hfield _ ihLater =>
        rw [fieldTokens, fieldTokens, List.length_cons, List.length_cons, List.length_cons,
          List.length_cons, List.length_append, List.length_append,
          ih _ List.mem_cons_self hfield.2,
          ihLater fun later hlater => ih later (List.mem_cons_of_mem _ hlater)]
    simp [tokens, hlength]

/-- A number that is read again with the same token is kept. -/
theorem isKept_float {value : Decimal.Binary64} {other : Value}
    (hreread : reread (.float value) = some other)
    (htokens : other.tokens = tokens (.float value)) :
    isKept (.float value) = true := by
  cases value with
  | infinite negative =>
    cases negative with
    | false => rfl
    | true =>
      have hnone : reread (.float (.infinite true)) = none := by decide
      rw [hnone] at hreread
      exact absurd hreread (by simp)
  | finite negative significand exponent =>
    obtain ⟨⟨digits, scale⟩, hshortest⟩ :
        ∃ decimal, Decimal.shortest significand exponent = decimal :=
      ⟨_, rfl⟩
    rw [isKept_finite hshortest]
    by_cases hfraction : digits ≠ 0 ∧ scale < 0
    · exact .inl hfraction
    · right
      have hwhole : digits = 0 ∨ 0 ≤ scale := by omega
      change ofToken? (.number _) = some other at hreread
      rw [ofToken?_text_whole hshortest hwhole] at hreread
      split_ifs at hreread with hfits
      obtain rfl := Option.some.inj hreread
      refine ⟨hfits, (text_signed_eq_iff hshortest hwhole).1 ?_⟩
      simpa [tokens, token?] using htokens

/-- A string of which the tokens come back is kept. -/
theorem isKept_string {value : List Char} {other : Value}
    (hreread : reread (.string value) = some other)
    (htokens : other.tokens = tokens (.string value)) : isKept (.string value) = true := by
  change ofToken? (stringToken value) = some other at hreread
  have htoken : other.tokens = [stringToken value] := htokens
  rw [stringToken] at hreread htoken
  rw [isKept]
  by_cases hfits : fitsBlock value = true
  · rw [if_pos hfits] at hreread htoken ⊢
    obtain ⟨read, hread, rfl⟩ := Option.map_eq_some_iff.1 hreread
    change [stringToken _] = _ at htoken
    rw [stringToken] at htoken
    split_ifs at htoken with hagain
    · exact keepsInBlock_of_blockChars_eq hread hagain (by simpa using htoken)
    · exact absurd htoken (by simp)
  · rw [if_neg hfits] at hreread htoken ⊢
    obtain ⟨read, hread, rfl⟩ := Option.map_eq_some_iff.1 hreread
    change [stringToken _] = _ at htoken
    rw [stringToken] at htoken
    split_ifs at htoken with hagain
    · exact absurd htoken (by simp)
    · exact List.all_eq_true.2 (keeps_of_decodeQuoted? hread (by simpa using htoken))

/-- A value that is read again with the same tokens is kept. -/
theorem isKept_of_tokens_eq {room : Nat} {value other : Value} (h : value.Formed room)
    (hreread : value.reread = some other) (htokens : other.tokens = value.tokens) :
    value.isKept = true := by
  induction h generalizing other with
  | int | boolean | null | enumeration => rfl
  | float room hnormal => exact isKept_float hreread htokens
  | string room value => exact isKept_string hreread htokens
  | @list room items h ih =>
    obtain ⟨others, hothers, rfl⟩ := Option.map_eq_some_iff.1 hreread
    have hitems : itemTokens others = itemTokens items := by simpa [tokens] using htokens
    have hall := forall₂_rereadItems hothers
    clear hothers hreread htokens
    change keepsItems items = true
    induction hall with
    | nil => rfl
    | @cons item other items others hitem hlater ihLater =>
      obtain ⟨hfirst, hrest⟩ := List.append_inj hitems
        (length_tokens_of_reread (h item List.mem_cons_self) hitem)
      rw [keepsItems, ih item List.mem_cons_self hitem hfirst, Bool.true_and]
      exact ihLater (fun later hmem => h later (List.mem_cons_of_mem _ hmem))
        (fun later hmem => ih later (List.mem_cons_of_mem _ hmem)) hrest
  | @object room fields hnames hsorted h ih =>
    obtain ⟨others, hothers, rfl⟩ := Option.map_eq_some_iff.1 hreread
    have hfields : fieldTokens others = fieldTokens fields := by simpa [tokens] using htokens
    have hall := forall₂_rereadFields hothers
    clear hothers hreread htokens hnames hsorted
    change keepsFields fields = true
    induction hall with
    | nil => rfl
    | @cons field other fields others hfield hlater ihLater =>
      obtain ⟨_, hbehind⟩ := List.cons.inj hfields
      obtain ⟨hfirst, hrest⟩ := List.append_inj (List.cons.inj hbehind).2
        (length_tokens_of_reread (h field List.mem_cons_self) hfield.2)
      rw [keepsFields, ih field List.mem_cons_self hfield.2 hfirst, Bool.true_and]
      exact ihLater (fun later hmem => h later (List.mem_cons_of_mem _ hmem))
        (fun later hmem => ih later (List.mem_cons_of_mem _ hmem)) hrest

/-! ## Values that are read again -/

/-- What is read again of a formed value is formed. -/
theorem Formed.reread {room : Nat} {value other : Value} (h : value.Formed room)
    (hreadable : ∀ token ∈ value.tokens, token.Readable) (hreread : value.reread = some other) :
    other.Formed room := by
  have hread : ValueReader.read? (.more .start) (value.tokens ++ []) = some (other, []) := by
    rw [ValueReader.start, ValueReader.read?_tokens h, hreread]
    rfl
  rw [List.append_nil] at hread
  have hstart : ValueReader.ProgressFormed room (.more .start) := trivial
  exact (ValueReader.formed_of_read? hstart hreadable (h.nestsWithin room (Nat.le_refl _)) hread).1

/-- A value is kept exactly if a value with the same text is read from its tokens. -/
theorem isKept_iff {room : Nat} {value : Value} (h : value.Formed room)
    (hreadable : ∀ token ∈ value.tokens, token.Readable) :
    value.isKept = true ↔ ∃ other, value.reread = some other ∧ other.text = value.text := by
  constructor
  · exact exists_reread_of_isKept h
  · rintro ⟨other, hreread, htext⟩
    have htokens := tokens_eq_of_text_eq h (h.reread hreadable hreread) hreadable htext
    exact isKept_of_tokens_eq h hreread htokens

example : (list [string ['a', '\x09'], object [("b", boolean true)]]).isKept = true := by decide

example : (list [string ['a', '\x1f']]).isKept = false := by decide

end Value

end QueryHooks.Document
