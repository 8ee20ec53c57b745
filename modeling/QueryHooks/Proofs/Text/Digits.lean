import QueryHooks.Proofs.Text.Letters
import QueryHooks.Text.Digits

/-!
# Digits of numbers

The digits of a number stand for it, and they do not begin with a zero unless the number is zero.

Main results:

- Theorem `decimal_toDigits`: the digits of a number stand for it.
- Theorem `toDigits_append_zeros`: zeros behind the digits of a number are those of a multiple of
  it.
- Theorem `head?_toDigits_ne_zero`: the digits of a positive number do not begin with a zero.
-/

namespace QueryHooks.Text

/-- The number of some digits is that of the library. -/
theorem decimal_eq_ofDigitChars (digits : List Char) :
    decimal digits = Nat.ofDigitChars 10 digits 0 := by
  rw [Nat.ofDigitChars_eq_foldl]
  rfl

/-- The digits of a number stand for it. -/
@[simp]
theorem decimal_toDigits (n : Nat) : decimal (Nat.toDigits 10 n) = n := by
  rw [decimal_eq_ofDigitChars]
  exact Nat.ofDigitChars_ten_toDigits

/-- Zeros in front of digits do not count. -/
theorem decimal_zeros_append (count : Nat) (digits : List Char) :
    decimal (List.replicate count '0' ++ digits) = decimal digits := by
  rw [decimal_eq_ofDigitChars, Nat.ofDigitChars_append, Nat.ofDigitChars_replicate_zero,
    Nat.mul_zero, decimal_eq_ofDigitChars]

/-- Zeros behind the digits of a number are those of a multiple of it. -/
theorem toDigits_append_zeros {n : Nat} (hn : 0 < n) (count : Nat) :
    Nat.toDigits 10 n ++ List.replicate count '0' = Nat.toDigits 10 (n * 10 ^ count) := by
  induction count with
  | zero => simp
  | succ count ih =>
    rw [List.replicate_succ', ← List.append_assoc, ih]
    have hpos : 0 < n * 10 ^ count := Nat.mul_pos hn (Nat.pow_pos (by decide))
    have happend := Nat.toDigits_append_toDigits (b := 10) (n := n * 10 ^ count) (d := 0)
      (by decide) hpos
      (by decide)
    rw [show Nat.toDigits 10 0 = ['0'] from rfl] at happend
    rw [happend]
    congr 1
    ring

/-- The digits of a positive number do not begin with a zero. -/
theorem head?_toDigits_ne_zero {n : Nat} (hn : 0 < n) : (Nat.toDigits 10 n).head? ≠ some '0' := by
  induction n using Nat.strongRecOn with
  | ind n ih =>
    rw [Nat.toDigits_eq_if (by decide)]
    by_cases hlt : n < 10
    · rw [if_pos hlt, List.head?_cons, ne_eq, Option.some.injEq, Nat.digitChar_eq_zero]
      omega
    · rw [if_neg hlt, List.head?_append_of_ne_nil _ Nat.toDigits_ne_nil]
      exact ih _ (by omega) (by omega)

theorem isDigit_of_mem_toDigits {n : Nat} {c : Char} (h : c ∈ Nat.toDigits 10 n) :
    c.isDigit = true :=
  Nat.isDigit_of_mem_toDigits (by decide) (by decide) h

/-- A digit is the character of a number below ten. -/
theorem exists_digitChar {c : Char} (h : c.isDigit = true) : ∃ n < 10, c = Nat.digitChar n := by
  rw [isDigit_iff] at h
  refine ⟨c.toNat - 48, by omega, ?_⟩
  apply Char.toNat_inj.1
  rw [Nat.toNat_digitChar_of_lt_ten (by omega)]
  omega

end QueryHooks.Text
