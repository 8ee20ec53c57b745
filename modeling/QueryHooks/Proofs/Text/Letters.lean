import Mathlib

/-!
# Letters and digits

The classes of ASCII letters and digits as ranges of code points, and what a change of case does to
them.

Main results:

- Theorems `isUpper_iff`, `isLower_iff` and `isDigit_iff`: the three classes as ranges.
- Theorem `isDigit_eq_false_of_isAlpha`: no letter is a digit.
- Theorems `isAlphanum_toLower` and `isAlphanum_toUpper`: a change of case leaves the classes as
  they are.
-/

namespace QueryHooks.Text

/-- The code points of the capitals. -/
theorem isUpper_iff {c : Char} : c.isUpper = true ↔ 65 ≤ c.toNat ∧ c.toNat ≤ 90 := by
  simp [Char.isUpper, UInt32.le_iff_toNat_le, ← Char.toNat_val]

/-- The code points of the lower-case letters. -/
theorem isLower_iff {c : Char} : c.isLower = true ↔ 97 ≤ c.toNat ∧ c.toNat ≤ 122 := by
  simp [Char.isLower, UInt32.le_iff_toNat_le, ← Char.toNat_val]

/-- The code points of the digits. -/
theorem isDigit_iff {c : Char} : c.isDigit = true ↔ 48 ≤ c.toNat ∧ c.toNat ≤ 57 := by
  simp [Char.isDigit, UInt32.le_iff_toNat_le, ← Char.toNat_val]

/-- A letter is a capital or a lower-case letter. -/
theorem isAlpha_iff {c : Char} : c.isAlpha = true ↔ c.isUpper = true ∨ c.isLower = true := by
  simp [Char.isAlpha]

/-- No letter is a digit. -/
theorem isDigit_eq_false_of_isAlpha {c : Char} (h : c.isAlpha = true) : c.isDigit = false := by
  rw [isAlpha_iff, isUpper_iff, isLower_iff] at h
  rw [Bool.eq_false_iff, ne_eq, isDigit_iff]
  omega

/-- A digit is in neither case. -/
theorem case_of_isDigit {c : Char} (h : c.isDigit = true) :
    c.isUpper = false ∧ c.isLower = false := by
  rw [isDigit_iff] at h
  rw [Bool.eq_false_iff, Bool.eq_false_iff, ne_eq, ne_eq, isUpper_iff, isLower_iff]
  omega

/-- In lower case the digits stay digits, and nothing becomes one. -/
@[simp]
theorem isDigit_toLower (c : Char) : c.toLower.isDigit = c.isDigit := by
  by_cases hupper : c.isUpper = true
  · have halpha : c.isAlpha = true := isAlpha_iff.2 (.inl hupper)
    rw [isDigit_eq_false_of_isAlpha halpha]
    exact isDigit_eq_false_of_isAlpha (by simpa using halpha)
  · rw [Char.toLower_eq_of_not_isUpper hupper]

/-- Letters and digits stay so in lower case, and nothing becomes one. -/
@[simp]
theorem isAlphanum_toLower (c : Char) : c.toLower.isAlphanum = c.isAlphanum := by
  simp [Char.isAlphanum]

@[simp]
theorem isDigit_toUpper (c : Char) : c.toUpper.isDigit = c.isDigit := by
  by_cases hlower : c.isLower = true
  · have halpha : c.isAlpha = true := isAlpha_iff.2 (.inr hlower)
    rw [isDigit_eq_false_of_isAlpha halpha]
    exact isDigit_eq_false_of_isAlpha (by simpa using halpha)
  · rw [Char.toUpper_eq_of_not_isLower hlower]

/-- Letters and digits stay so in upper case, and nothing becomes one. -/
@[simp]
theorem isAlphanum_toUpper (c : Char) : c.toUpper.isAlphanum = c.isAlphanum := by
  simp [Char.isAlphanum]

end QueryHooks.Text
