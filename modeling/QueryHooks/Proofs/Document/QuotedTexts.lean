import QueryHooks.Document.StringValue
import QueryHooks.Document.ValueText
import QueryHooks.Proofs.Document.TokenTexts
import QueryHooks.Proofs.Text.Digits

/-!
# Texts of quoted strings

A character that is no plain one is written by its code point in base ten, and that is read in base
sixteen.  So a string is read from its text if such characters have one digit, and otherwise what is
read is written in another way.

Main results:

- Theorem `readable_quoted`: between quotes, the text of a string ends at the second quote.
- Theorem `decodeQuoted?_flatMap`: a string is read from its text if its characters are kept.
- Theorem `keeps_of_decodeQuoted?`: a string that is written again like before has only such
  characters.
-/

namespace QueryHooks.Document

/-! ## Code points -/

/-- A decimal digit is a hexadecimal one with the same value. -/
theorem digit?_digitChar {n : Nat} (h : n < 10) : Text.digit? 16 (Nat.digitChar n) = some n := by
  interval_cases n <;> decide

/-- Four digits, read in base sixteen. -/
def hexadecimal (a b c d : Nat) : Nat :=
  4096 * a + 256 * b + 16 * c + d

/-- Four decimal digits denote a character when they are read as hexadecimal ones. -/
theorem isValidChar_hexadecimal {a b c d : Nat} (ha : a < 10) (hb : b < 10) (hc : c < 10)
    (hd : d < 10) :
    (hexadecimal a b c d).isValidChar := by
  left
  rw [hexadecimal]
  omega

/-- Four digits are read as a code point in base sixteen. -/
theorem codePoint?_digits {a b c d : Nat} (ha : a < 10) (hb : b < 10) (hc : c < 10) (hd : d < 10) :
    codePoint? [Nat.digitChar a, Nat.digitChar b, Nat.digitChar c, Nat.digitChar d] =
      some (Char.ofNat (hexadecimal a b c d)) := by
  have hplus : Nat.digitChar a ≠ '+' := Nat.digitChar_ne _ (by decide)
  have hvalue : Text.natural? 16
    [Nat.digitChar a, Nat.digitChar b, Nat.digitChar c, Nat.digitChar d] =
      some (hexadecimal a b c d) := by
    simp [Text.natural?, digit?_digitChar, ha, hb, hc, hd, hexadecimal]
    ring
  simp [codePoint?, hplus, Text.codePoint?, hvalue, isValidChar_hexadecimal ha hb hc hd]

/-- A number of at most four digits is written with exactly four. -/
theorem fourDigits_of_lt {n : Nat} (h : n < 10000) :
    fourDigits n = [Nat.digitChar (n / 1000), Nat.digitChar (n / 100 % 10),
      Nat.digitChar (n / 10 % 10), Nat.digitChar (n % 10)] := by
  have hone : (1 : Nat) < 10 := by decide
  rw [fourDigits]
  by_cases h1 : n < 10
  · have hzero : n / 1000 = 0 ∧ n / 100 % 10 = 0 ∧ n / 10 % 10 = 0 := by omega
    rw [Nat.toDigits_of_lt_base h1, hzero.1, hzero.2.1, hzero.2.2, Nat.mod_eq_of_lt h1]
    rfl
  rw [Nat.toDigits_of_base_le hone (by omega)]
  by_cases h2 : n / 10 < 10
  · have hzero : n / 1000 = 0 ∧ n / 100 % 10 = 0 := by omega
    rw [Nat.toDigits_of_lt_base h2, hzero.1, hzero.2, Nat.mod_eq_of_lt h2]
    rfl
  rw [Nat.toDigits_of_base_le hone (by omega)]
  by_cases h3 : n / 10 / 10 < 10
  · have hzero : n / 1000 = 0 := by omega
    rw [Nat.toDigits_of_lt_base h3, hzero, show n / 10 / 10 = n / 100 % 10 by omega]
    rfl
  rw [Nat.toDigits_of_base_le hone (by omega), Nat.toDigits_of_lt_base (by omega),
    show n / 10 / 10 / 10 = n / 1000 by omega, show n / 10 / 10 % 10 = n / 100 % 10 by omega]
  rfl

theorem isDigit_of_mem_fourDigits {n : Nat} {c : Char} (h : c ∈ fourDigits n) :
    c.isDigit = true := by
  rcases List.mem_append.1 h with hzero | hdigit
  · rw [List.eq_of_mem_replicate hzero]
    decide
  · exact Text.isDigit_of_mem_toDigits hdigit

/-- The first four digits of a number that is written with at least four of them. -/
theorem exists_fourDigits_eq (n : Nat) :
    ∃ a < 10, ∃ b < 10, ∃ c < 10, ∃ d < 10, ∃ later,
      fourDigits n =
        Nat.digitChar a :: Nat.digitChar b :: Nat.digitChar c :: Nat.digitChar d :: later ∧
      (n < 10000 → later = [] ∧ n = 1000 * a + 100 * b + 10 * c + d) ∧ (10000 ≤ n → a ≠ 0) := by
  by_cases h : n < 10000
  · refine ⟨_, by omega, _, by omega, _, by omega, _, by omega, [], fourDigits_of_lt h,
      fun _ => ⟨rfl, by omega⟩, fun hlarge => by omega⟩
  · have hlength : 4 < (Nat.toDigits 10 n).length := by
      rw [← not_le, Nat.length_toDigits_le_iff (by decide) (by decide)]
      exact h
    have hdigits (c : Char) (hc : c ∈ Nat.toDigits 10 n) : ∃ k < 10, c = Nat.digitChar k :=
      Text.exists_digitChar (Text.isDigit_of_mem_toDigits hc)
    have hhead := Text.head?_toDigits_ne_zero (n := n) (by omega)
    rw [fourDigits, Nat.sub_eq_zero_of_le hlength.le, List.replicate_zero, List.nil_append]
    generalize Nat.toDigits 10 n = digits at hlength hdigits hhead ⊢
    obtain ⟨w, x, y, z, later, rfl⟩ : ∃ w x y z later, digits = w :: x :: y :: z :: later := by
      match digits, hlength with
      | w :: x :: y :: z :: later, _ => exact ⟨w, x, y, z, later, rfl⟩
    obtain ⟨a, ha, rfl⟩ := hdigits w (by simp)
    obtain ⟨b, hb, rfl⟩ := hdigits x (by simp)
    obtain ⟨c, hc, rfl⟩ := hdigits y (by simp)
    obtain ⟨d, hd, rfl⟩ := hdigits z (by simp)
    refine ⟨a, ha, b, hb, c, hc, d, hd, later, rfl, fun hlt => absurd hlt h, ?_⟩
    intro _ hzero
    rw [hzero] at hhead
    exact hhead rfl

/-! ## Characters between quotes -/

/--
A character between quotes is read as it is: it is no control character other than the two that end
lines and the first ten, and it has at most sixteen bits.
-/
def keepsInQuotes (c : Char) : Bool :=
  isPlain c || c = '\n' || c = '\r' || c.toNat ≤ 9

/-- The characters that are written with a letter or a quote behind a backslash. -/
theorem escapeInQuotes_cases (c : Char) :
    (c ≠ '"' ∧ c ≠ '\\' ∧ c ≠ '\n' ∧ isPlain c = true ∧ escapeInQuotes c = [c]) ∨
    (keepsInQuotes c = true ∧ ∃ letter, escapeInQuotes c = ['\\', letter] ∧
      escaped? letter = some c ∧
      letter ≠ 'u' ∧ letter ≠ '\n') ∨
    (isPlain c = false ∧ c ≠ '\n' ∧ c ≠ '\r' ∧
      escapeInQuotes c = '\\' :: 'u' :: fourDigits c.toNat) := by
  rw [escapeInQuotes]
  split_ifs with hcr hlf htab hquote hbackslash hplain
  · exact .inr (.inl ⟨by rw [hcr]; decide, 'r', rfl, by rw [hcr]; rfl, by decide, by decide⟩)
  · exact .inr (.inl ⟨by rw [hlf]; decide, 'n', rfl, by rw [hlf]; rfl, by decide, by decide⟩)
  · exact .inr (.inl ⟨by rw [htab]; decide, 't', rfl, by rw [htab]; rfl, by decide, by decide⟩)
  · exact .inr (.inl ⟨by rw [hquote]; decide, '"', rfl, by rw [hquote]; rfl, by decide, by decide⟩)
  · exact .inr
      (.inl ⟨by rw [hbackslash]; decide, '\\', rfl, by rw [hbackslash]; rfl, by decide, by decide⟩)
  · exact .inl ⟨hquote, hbackslash, hlf, hplain, rfl⟩
  · exact .inr (.inr ⟨by simpa using hplain, hlf, hcr, rfl⟩)

/-! ## The end of a quoted string -/

/-- Digits of a string are read as they stand. -/
theorem readString_digits {digits : List Char} (hdigits : ∀ c ∈ digits, c.isDigit = true)
    (rest : List Char) :
    Token.readString false (digits ++ rest) =
      (Token.readString false rest).map fun found => (digits ++ found.1, found.2) := by
  induction digits with
  | nil => simp
  | cons c digits ih =>
    have hc := hdigits c List.mem_cons_self
    obtain ⟨_, hquote, hends, _⟩ := Token.startsNumber_cases (.inr hc)
    have hlf : c ≠ '\n' := by
      rintro rfl
      exact absurd hc (by decide)
    have hbackslash : (c == '\\' && !false) = false := by
      rw [Bool.and_eq_false_iff, beq_eq_false_iff_ne]
      left
      rintro rfl
      exact absurd hc (by decide)
    rw [List.cons_append, Token.readString, if_neg hlf, if_neg (by simp [hquote]), hbackslash,
      ih fun d hd => hdigits d (List.mem_cons_of_mem _ hd), Option.map_map]
    rfl

/-- A character that is written between quotes does not end them. -/
theorem readString_escapeInQuotes (c : Char) (rest : List Char) :
    Token.readString false (escapeInQuotes c ++ rest) =
      (Token.readString false rest).map fun found => (escapeInQuotes c ++ found.1, found.2) := by
  rcases escapeInQuotes_cases c with
    ⟨hquote, hbackslash, hlf, _, htext⟩ | ⟨_, letter, htext, _, _, hlf⟩ |
    ⟨_, _, _, htext⟩
  · have hnext : (c == '\\' && !false) = false := by simp [hbackslash]
    rw [htext, List.singleton_append, Token.readString, if_neg hlf, if_neg (by simp [hquote]),
      hnext]
    rfl
  · rw [htext]
    simp [Token.readString, hlf, Option.map_map, Function.comp_def]
  · have hu : Token.readString true ('u' :: (fourDigits c.toNat ++ rest)) =
        (Token.readString false (fourDigits c.toNat ++ rest)).map fun found =>
        ('u' :: found.1, found.2) := by
      simp [Token.readString]
    rw [htext, List.cons_append, List.cons_append, Token.readString, if_neg (by decide),
      if_neg (by decide)]
    simp only [beq_self_eq_true, Bool.not_false, Bool.and_self]
    rw [hu, readString_digits fun _ => isDigit_of_mem_fourDigits]
    simp [Option.map_map, Function.comp_def]

/-- Between quotes, the text of a string ends at the second quote. -/
theorem readable_quoted (value : List Char) :
    (Token.string (value.flatMap escapeInQuotes)).Readable := by
  induction value with
  | nil => rfl
  | cons c value ih =>
    rw [Token.Readable] at ih
    rw [Token.Readable, List.flatMap_cons, List.append_assoc, readString_escapeInQuotes, ih]
    rfl

/-! ## Reading a quoted string -/

/-- An escape of six characters is read as a code point in base sixteen. -/
theorem decodeQuoted?_digits {a b c d : Nat} (ha : a < 10) (hb : b < 10) (hc : c < 10) (hd : d < 10)
    (rest : List Char) :
    decodeQuoted? ('\\' :: 'u' :: Nat.digitChar a :: Nat.digitChar b :: Nat.digitChar c ::
      Nat.digitChar d :: rest) =
        (decodeQuoted? rest).map (Char.ofNat (hexadecimal a b c d) :: ·) := by
  rw [decodeQuoted?, codePoint?_digits ha hb hc hd]
  cases decodeQuoted? rest <;> rfl

/-- A character that is kept between quotes is read. -/
theorem decodeQuoted?_of_keeps {c : Char} (h : keepsInQuotes c = true) (rest : List Char) :
    decodeQuoted? (escapeInQuotes c ++ rest) = (decodeQuoted? rest).map (c :: ·) := by
  rcases escapeInQuotes_cases c with
    ⟨_, hbackslash, _, _, htext⟩ | ⟨_, letter, htext, hletter, hu, _⟩ |
    ⟨hplain, hlf, hcr, htext⟩
  · rw [htext, List.singleton_append,
      decodeQuoted?.eq_4 _ _ (by simp [hbackslash]) (by simp [hbackslash]),
      if_neg hbackslash]
  · rw [htext, List.cons_append, List.singleton_append, decodeQuoted?.eq_3 _ _ (by simp [hu]),
      hletter]
    cases decodeQuoted? rest <;> rfl
  · have hsmall : c.toNat ≤ 9 := by
      simpa [keepsInQuotes, hplain, hlf, hcr] using h
    have hzero : c.toNat / 1000 = 0 ∧ c.toNat / 100 % 10 = 0 ∧ c.toNat / 10 % 10 = 0 ∧
        c.toNat % 10 = c.toNat := by omega
    rw [htext, fourDigits_of_lt (by omega), hzero.1, hzero.2.1, hzero.2.2.1, hzero.2.2.2]
    simp only [List.cons_append, List.nil_append]
    rw [decodeQuoted?_digits (by decide) (by decide) (by decide) (by omega)]
    simp [hexadecimal]

/-- A string is read from its text, if all of its characters are kept between quotes. -/
theorem decodeQuoted?_flatMap {value : List Char} (h : ∀ c ∈ value, keepsInQuotes c = true) :
    decodeQuoted? (value.flatMap escapeInQuotes) = some value := by
  induction value with
  | nil => rfl
  | cons c value ih =>
    have hlater := ih fun d hd => h d (List.mem_cons_of_mem _ hd)
    rw [List.flatMap_cons, decodeQuoted?_of_keeps (h c List.mem_cons_self), hlater]
    rfl

/-- The plain characters go from the space to the last one of four hexadecimal digits. -/
theorem isPlain_iff {c : Char} : isPlain c = true ↔ 32 ≤ c.toNat ∧ c.toNat ≤ 65535 := by
  simp [isPlain, Char.le_def, UInt32.le_iff_toNat_le]

/-- Different decimal digits are different characters. -/
theorem digitChar_inj {m n : Nat} (hm : m < 10) (hn : n < 10)
    (h : Nat.digitChar m = Nat.digitChar n) :
    m = n := by
  have htoNat := congrArg Char.toNat h
  rw [Nat.toNat_digitChar_of_lt_ten hm, Nat.toNat_digitChar_of_lt_ten hn] at htoNat
  omega

/--
What is read of a character that is not kept is written in another way: a number with the same
digits in base sixteen and in base ten has one digit.
-/
theorem exists_decodeQuoted?_of_not_keeps {c : Char} (h : keepsInQuotes c = false)
    (rest : List Char) :
    ∃ (other : Char) (later : List Char),
      decodeQuoted? (escapeInQuotes c ++ rest) = (decodeQuoted? (later ++ rest)).map (other :: ·) ∧
      ∀ text more, escapeInQuotes other ++ text ≠ escapeInQuotes c ++ more := by
  obtain ⟨htext, hlarge⟩ : escapeInQuotes c = '\\' :: 'u' :: fourDigits c.toNat ∧ 9 < c.toNat := by
    rcases escapeInQuotes_cases c with ⟨_, _, _, hplain, _⟩ | ⟨hkeeps, _⟩ | ⟨_, _, _, htext⟩
    · simp [keepsInQuotes, hplain] at h
    · rw [hkeeps] at h
      exact absurd h (by simp)
    · simp only [keepsInQuotes, Bool.or_eq_false_iff, decide_eq_false_iff_not, not_le] at h
      exact ⟨htext, h.2⟩
  obtain ⟨x, hx, y, hy, z, hz, w, hw, later, hdigits, hsmall, hfirst⟩ :=
    exists_fourDigits_eq c.toNat
  refine ⟨Char.ofNat (hexadecimal x y z w), later, ?_, ?_⟩
  · rw [htext, hdigits]
    simp only [List.cons_append]
    exact decodeQuoted?_digits hx hy hz hw _
  · intro text more heq
    rw [htext, hdigits] at heq
    have hvalue : (Char.ofNat (hexadecimal x y z w)).toNat = hexadecimal x y z w := by
      rw [Char.ofNat, dif_pos (isValidChar_hexadecimal hx hy hz hw)]
      rfl
    generalize Char.ofNat (hexadecimal x y z w) = other at heq hvalue
    rcases escapeInQuotes_cases other with
      ⟨_, hbackslash, _, _, hother⟩ | ⟨_, letter, hother, _, hu, _⟩ |
      ⟨hplain, _, _, hother⟩
    · rw [hother] at heq
      exact hbackslash (List.cons.inj heq).1
    · rw [hother] at heq
      exact hu (List.cons.inj (List.cons.inj heq).2).1
    · have hcontrol : other.toNat < 32 := by
        rw [Bool.eq_false_iff, ne_eq, isPlain_iff] at hplain
        rw [hexadecimal] at hvalue
        omega
      rw [hother, fourDigits_of_lt (by omega)] at heq
      simp only [List.cons_append, List.cons.injEq, true_and] at heq
      have hx' := digitChar_inj (by omega) hx heq.1
      have hy' := digitChar_inj (by omega) hy heq.2.1
      have hz' := digitChar_inj (by omega) hz heq.2.2.1
      have hw' := digitChar_inj (by omega) hw heq.2.2.2.1
      rw [hexadecimal] at hvalue
      by_cases hten : c.toNat < 10000
      · have hc := (hsmall hten).2
        omega
      · have hne := hfirst (by omega)
        omega

/-- A string that is written again like before has only characters that are kept between quotes. -/
theorem keeps_of_decodeQuoted? {value read : List Char}
    (h : decodeQuoted? (value.flatMap escapeInQuotes) = some read)
    (hagain : read.flatMap escapeInQuotes = value.flatMap escapeInQuotes) :
    ∀ c ∈ value, keepsInQuotes c = true := by
  induction value generalizing read with
  | nil => simp
  | cons c value ih =>
    rw [List.flatMap_cons] at h hagain
    cases hkeeps : keepsInQuotes c with
    | true =>
      rw [decodeQuoted?_of_keeps hkeeps] at h
      obtain ⟨later, hlater, rfl⟩ := Option.map_eq_some_iff.1 h
      rw [List.flatMap_cons] at hagain
      intro d hd
      rcases List.mem_cons.1 hd with rfl | hd
      · exact hkeeps
      · exact ih hlater (List.append_cancel_left hagain) d hd
    | false =>
      obtain ⟨other, digits, hread, hne⟩ :=
        exists_decodeQuoted?_of_not_keeps hkeeps (value.flatMap escapeInQuotes)
      rw [hread] at h
      obtain ⟨later, _, rfl⟩ := Option.map_eq_some_iff.1 h
      rw [List.flatMap_cons] at hagain
      exact absurd hagain (hne _ _)

end QueryHooks.Document
