import QueryHooks.Document.ValueReader
import QueryHooks.Document.ValueText
import QueryHooks.Proofs.Decimal.Shortest
import QueryHooks.Proofs.Document.TokenTexts
import QueryHooks.Proofs.Text.Digits

/-!
# Texts of numbers

A whole number is read from its text.  So is a floating point number whose text has a fraction,
since the shortest decimal that stands for it was chosen for that; one without a fraction has the
text of a whole number and is read as that.

Main results:

- Theorem `ofToken?_wholeText`: a whole number is read from its text, if it fits into 64 bits.
- Theorem `toList_text_whole`: without a fraction, a floating point number is written as a whole
  number.
- Theorem `ofToken?_of_fraction`: a floating point number with a fraction is read from its text.
- Theorem `readable_text_finite`: the text of a floating point number is that of a number token.
-/

namespace QueryHooks.Document

/-! ## Literals -/

/-- The sign of a number as it is written. -/
def signText (negative : Bool) : List Char :=
  if negative then ['-'] else []

namespace Number

/-- The digits of a natural number have no zero in front of others. -/
theorem isWhole_toDigits (n : Nat) : isWhole (Nat.toDigits 10 n) = true := by
  rcases Nat.eq_zero_or_pos n with rfl | hn
  · rfl
  · have hhead := Text.head?_toDigits_ne_zero hn
    cases hdigits : Nat.toDigits 10 n with
    | nil => exact absurd hdigits Nat.toDigits_ne_nil
    | cons first later =>
      rw [hdigits] at hhead
      have hfirst : first ≠ '0' := by simpa using hhead
      simp [isWhole, hfirst]

/-- Digits are taken up to a text that begins with something else. -/
theorem takeWhile_isDigit {digits : List Char} (rest : List Char)
    (hdigits : ∀ c ∈ digits, c.isDigit = true)
    (hrest : ∀ c ∈ rest.head?, c.isDigit = false) :
    (digits ++ rest).takeWhile Char.isDigit = digits ∧
      (digits ++ rest).dropWhile Char.isDigit = rest := by
  rw [List.takeWhile_append_of_pos hdigits, List.dropWhile_append_of_pos hdigits]
  cases rest with
  | nil => simp
  | cons c rest =>
    have hc : c.isDigit = false := hrest c (by simp)
    simp [hc]

/-- Read what follows the sign of a literal. -/
def parseUnsigned? (negative : Bool) (body : List Char) : Option Number :=
  let whole := body.takeWhile Char.isDigit
  if isWhole whole then
    match body.dropWhile Char.isDigit with
    | '.' :: rest =>
      let fraction := rest.takeWhile Char.isDigit
      if fraction.isEmpty then none
      else parseTail? negative whole (some fraction) (rest.dropWhile Char.isDigit)
    | rest => parseTail? negative whole none rest
  else none

/-- A sign in front of a number is read off first. -/
theorem parse?_signText_append {whole : List Char} (negative : Bool) (rest : List Char)
    (hdigits : ∀ c ∈ whole, c.isDigit = true) (hwhole : isWhole whole = true) :
    parse? (signText negative ++ (whole ++ rest)) = parseUnsigned? negative (whole ++ rest) := by
  obtain ⟨c, whole, rfl⟩ : ∃ c later, whole = c :: later := by
    cases whole with
    | nil => exact absurd hwhole (by decide)
    | cons c later => exact ⟨c, later, rfl⟩
  have hminus : c ≠ '-' := by
    rintro rfl
    exact absurd (hdigits '-' List.mem_cons_self) (by decide)
  cases negative with
  | true => rfl
  | false =>
    have hhead : ((c :: whole ++ rest).head? == some '-') = false := by simp [hminus]
    simp only [signText, Bool.false_eq_true, if_false, List.nil_append, parse?, hhead]
    rfl

/-- A whole number is read from its digits. -/
theorem parse?_whole {digits : List Char} (negative : Bool)
    (hdigits : ∀ c ∈ digits, c.isDigit = true)
    (hwhole : isWhole digits = true) :
    parse? (signText negative ++ digits) = some ⟨negative, digits, none, none⟩ := by
  have hparse := parse?_signText_append negative [] hdigits hwhole
  obtain ⟨htake, hdrop⟩ := takeWhile_isDigit [] hdigits (by simp)
  rw [List.append_nil] at hparse htake hdrop
  simp [hparse, parseUnsigned?, htake, hdrop, hwhole, parseTail?]

/-- A number with a fraction is read from its digits in front of the point and behind it. -/
theorem parse?_fraction {whole fraction : List Char} (negative : Bool)
    (hdigits : ∀ c ∈ whole, c.isDigit = true) (hwhole : isWhole whole = true)
    (hfraction : ∀ c ∈ fraction, c.isDigit = true) (hne : fraction ≠ []) :
    parse? (signText negative ++ (whole ++ '.' :: fraction)) =
      some ⟨negative, whole, some fraction, none⟩ := by
  obtain ⟨htake, hdrop⟩ := takeWhile_isDigit ('.' :: fraction) hdigits (by simp)
  obtain ⟨htakeLater, hdropLater⟩ := takeWhile_isDigit [] hfraction (by simp)
  rw [List.append_nil] at htakeLater hdropLater
  rw [parse?_signText_append negative _ hdigits hwhole, parseUnsigned?]
  simp only [htake, hdrop, hwhole, htakeLater, hdropLater, if_true, List.isEmpty_iff, hne, if_false,
    parseTail?]

end Number

/-! ## Whole numbers -/

/-- The number with a sign and a size. -/
def signed (negative : Bool) (size : Nat) : Int :=
  if negative then -size else size

/-- A number is its size with its sign. -/
theorem signed_natAbs (n : Int) : signed (decide (n < 0)) n.natAbs = n := by
  by_cases hn : n < 0
  · rw [signed, decide_eq_true hn, if_pos rfl]
    omega
  · rw [signed, decide_eq_false hn, if_neg Bool.false_ne_true]
    omega

/-- A whole number as it is written. -/
def wholeText (negative : Bool) (size : Nat) : List Char :=
  signText negative ++ Nat.toDigits 10 size

/-- The text of an integer is its sign and the digits of its size. -/
theorem toList_toString (n : Int) : (toString n).toList = wholeText (decide (n < 0)) n.natAbs := by
  rw [Int.toString_eq_repr, Int.repr_eq_if, wholeText]
  by_cases hn : 0 ≤ n
  · rw [if_pos hn, Nat.toList_repr, show n.toNat = n.natAbs by omega, decide_eq_false (by omega)]
    rfl
  · rw [if_neg hn, String.toList_append, Nat.toList_repr, show (-n).toNat = n.natAbs by omega,
      decide_eq_true (by omega)]
    rfl

/-- The text of a number is that of its sign and size, unless the sign stands in front of zero. -/
theorem toList_toString_signed (negative : Bool) (size : Nat) :
    (toString (signed negative size)).toList = wholeText negative size ↔
      ¬(negative = true ∧ size = 0) := by
  rw [toList_toString]
  cases negative with
  | false =>
    have hnot : ¬((size : Int) < 0) := by omega
    simp [signed, hnot]
  | true =>
    rcases Nat.eq_zero_or_pos size with rfl | hpos
    · decide
    · simp [signed, hpos, hpos.ne']

theorem not_endsNumber_of_isDigit {c : Char} (h : c.isDigit = true) : Token.endsNumber c = false :=
  (Token.startsNumber_cases (.inr h)).2.2.1

/-- The minus sign does not end a number. -/
theorem not_endsNumber_of_mem_signText {negative : Bool} {c : Char} (h : c ∈ signText negative) :
    Token.endsNumber c = false := by
  cases negative with
  | false => exact absurd h List.not_mem_nil
  | true =>
    obtain rfl := List.mem_singleton.1 h
    decide

/-- The text of an integer parses as its sign and its digits. -/
theorem parse?_wholeText (negative : Bool) (size : Nat) :
    Number.parse? (wholeText negative size) = some ⟨negative, Nat.toDigits 10 size, none, none⟩ :=
  Number.parse?_whole negative (fun _ => Text.isDigit_of_mem_toDigits)
    (Number.isWhole_toDigits size)

/-- The text of an integer is read as one token. -/
theorem readable_wholeText (negative : Bool) (size : Nat) :
    (Token.number (wholeText negative size)).Readable := by
  refine ⟨by rw [parse?_wholeText]; rfl, ?_⟩
  intro c hc
  rcases List.mem_append.1 hc with hsign | hdigit
  · exact not_endsNumber_of_mem_signText hsign
  · exact not_endsNumber_of_isDigit (Text.isDigit_of_mem_toDigits hdigit)

/-- A whole number is read from its text, if it fits into 64 bits. -/
theorem ofToken?_wholeText (negative : Bool) (size : Nat) :
    Value.ofToken? (.number (wholeText negative size)) =
      if Decimal.fitsSigned 63 (signed negative size) then some (.int (signed negative size))
      else none := by
  have hvalue : Number.toInt ⟨negative, Nat.toDigits 10 size, none, none⟩ =
      signed negative size := by
    simp [Number.toInt, signed]
  rw [Value.ofToken?, parse?_wholeText]
  change Value.ofNumber? _ = _
  rw [Value.ofNumber?, if_pos (show Number.isInteger _ = true from rfl), hvalue]

/-! ## Floating point numbers -/

open Decimal (positional shortest Binary64)

/-- The digits of a decimal with a fraction, in front of the point and behind it. -/
theorem exists_parts_of_positional {digits : Nat} {scale : Int} (hdigits : digits ≠ 0)
    (hscale : scale < 0) :
    ∃ whole fraction, positional digits scale = whole ++ '.' :: fraction ∧
      (∀ c ∈ whole, c.isDigit = true) ∧ Number.isWhole whole = true ∧
      (∀ c ∈ fraction, c.isDigit = true) ∧ (fraction.length : Int) = -scale ∧
      Text.decimal (whole ++ fraction) = digits := by
  have hall (c : Char) (hc : c ∈ Nat.toDigits 10 digits) : c.isDigit = true :=
    Text.isDigit_of_mem_toDigits hc
  have hplaces : (-scale).toNat ≠ 0 := by omega
  rw [positional]
  simp only [hdigits, hplaces, if_false]
  generalize hbody : Nat.toDigits 10 digits = body at hall
  by_cases hlt : (-scale).toNat < body.length
  · -- The point stands between the digits.
    refine ⟨_, _, if_pos hlt, ?_, ?_, ?_, ?_, ?_⟩
    · intro c hc
      exact hall c (List.mem_of_mem_take hc)
    · have hhead := Text.head?_toDigits_ne_zero (Nat.pos_of_ne_zero hdigits)
      rw [hbody] at hhead
      obtain ⟨first, later, rfl⟩ := List.exists_cons_of_length_pos (Nat.zero_lt_of_lt hlt)
      obtain ⟨count, hcount⟩ : ∃ count, (first :: later).length - (-scale).toNat = count + 1 :=
        ⟨_, (Nat.succ_pred (by omega)).symm⟩
      have hfirst : first ≠ '0' := by simpa using hhead
      rw [hcount, List.take_succ_cons]
      simp [Number.isWhole, hfirst]
    · intro c hc
      exact hall c (List.mem_of_mem_drop hc)
    · rw [List.length_drop]
      omega
    · rw [List.take_append_drop, ← hbody, Text.decimal_toDigits]
  · -- Zeros stand behind the point in front of the digits.
    refine ⟨['0'], _, if_neg hlt, by simp, rfl, ?_, ?_, ?_⟩
    · intro c hc
      rcases List.mem_append.1 hc with hzero | hdigit
      · rw [List.eq_of_mem_replicate hzero]
        decide
      · exact hall c hdigit
    · rw [List.length_append, List.length_replicate]
      omega
    · have hzeros := Text.decimal_zeros_append ((-scale).toNat - body.length + 1) body
      rw [← hbody, Text.decimal_toDigits] at hzeros
      rw [← hbody]
      exact hzeros

/-- A decimal without a fraction is a whole number. -/
theorem positional_of_whole {digits : Nat} {scale : Int} (h : digits = 0 ∨ 0 ≤ scale) :
    positional digits scale = Nat.toDigits 10 (digits * 10 ^ scale.toNat) := by
  rw [positional]
  by_cases hdigits : digits = 0
  · rw [if_pos hdigits, hdigits, Nat.zero_mul]
    rfl
  · have hplaces : (-scale).toNat = 0 := by omega
    simp only [hdigits, hplaces, if_false, if_true]
    exact Text.toDigits_append_zeros (Nat.pos_of_ne_zero hdigits) _

/-- The text of a finite number is its sign and its shortest digits, written out in full. -/
theorem toList_text_finite {negative : Bool} {significand digits : Nat} {exponent scale : Int}
    (h : shortest significand exponent = (digits, scale)) :
    (Binary64.finite negative significand exponent).text.toList =
      signText negative ++ positional digits scale := by
  cases negative <;> simp [Binary64.text, h, signText]

section

variable {negative : Bool} {significand digits : Nat} {exponent scale : Int}
  (hshortest : shortest significand exponent = (digits, scale))

include hshortest

/-- Without a fraction, a floating point number is written as a whole number. -/
theorem toList_text_whole (hwhole : digits = 0 ∨ 0 ≤ scale) :
    (Binary64.finite negative significand exponent).text.toList =
      wholeText negative (digits * 10 ^ scale.toNat) := by
  rw [toList_text_finite hshortest, positional_of_whole hwhole]
  rfl

/-- The text of a floating point number with a fraction is a literal with its parts. -/
theorem exists_literal_of_fraction (negative : Bool) (hdigits : digits ≠ 0) (hscale : scale < 0) :
    ∃ whole fraction, (fraction.length : Int) = -scale ∧ Text.decimal (whole ++ fraction) = digits ∧
      Number.parse? (Binary64.finite negative significand exponent).text.toList =
        some ⟨negative, whole, some fraction, none⟩ ∧
      ∀ c ∈ (Binary64.finite negative significand exponent).text.toList, Token.endsNumber c =
        false := by
  obtain ⟨whole, fraction, hpositional, hwhole, hisWhole, hfraction, hlength, hdecimal⟩ :=
    exists_parts_of_positional hdigits hscale
  have hne : fraction ≠ [] := by
    rintro rfl
    simp only [List.length_nil] at hlength
    omega
  rw [toList_text_finite hshortest, hpositional]
  refine ⟨whole, fraction, hlength, hdecimal,
    Number.parse?_fraction negative hwhole hisWhole hfraction hne, ?_⟩
  intro c hc
  simp only [List.mem_append, List.mem_cons] at hc
  rcases hc with hsign | hdigit | rfl | hdigit
  · exact not_endsNumber_of_mem_signText hsign
  · exact not_endsNumber_of_isDigit (hwhole c hdigit)
  · decide
  · exact not_endsNumber_of_isDigit (hfraction c hdigit)

/-- A floating point number with a fraction is read from its text. -/
theorem ofToken?_of_fraction (hnormal : (Binary64.finite negative significand exponent).IsNormal)
    (hdigits : digits ≠ 0) (hscale : scale < 0) :
    Value.ofToken? (.number (Binary64.finite negative significand exponent).text.toList) =
      some (.float (.finite negative significand exponent)) := by
  obtain ⟨whole, fraction, hlength, hdecimal, hparse, _⟩ :=
    exists_literal_of_fraction hshortest negative hdigits hscale
  have hvalue : Number.toBinary64 ⟨negative, whole, some fraction, none⟩ =
      .finite negative significand exponent := by
    rw [Number.toBinary64]
    simp only [Option.getD_some, hdecimal, hlength, zero_sub, neg_neg]
    exact Binary64.ofDecimal_shortest negative hnormal hshortest hdigits
  rw [Value.ofToken?, hparse]
  change Value.ofNumber? _ = _
  rw [Value.ofNumber?, if_neg (by simp [Number.isInteger]), hvalue]

/-- The text of a finite number is read as one token. -/
theorem readable_text_finite :
    (Token.number (Binary64.finite negative significand exponent).text.toList).Readable := by
  by_cases hfraction : digits ≠ 0 ∧ scale < 0
  · obtain ⟨whole, fraction, _, _, hparse, hends⟩ :=
      exists_literal_of_fraction hshortest negative hfraction.1 hfraction.2
    exact ⟨by rw [hparse]; rfl, hends⟩
  · rw [toList_text_whole hshortest (by omega)]
    exact readable_wholeText _ _

end

end QueryHooks.Document
