/-!
# Digits

The numbers that texts of digits stand for, in base ten and in other bases up to sixteen.

Main definitions: `natural?`, `decimal`, `codePoint?`.
-/

namespace QueryHooks.Text

/-- The value of a digit in base sixteen. -/
def hexDigit? (c : Char) : Option Nat :=
  if '0' ≤ c ∧ c ≤ '9' then some (c.toNat - 48)
  else if 'a' ≤ c ∧ c ≤ 'f' then some (c.toNat - 87)
  else if 'A' ≤ c ∧ c ≤ 'F' then some (c.toNat - 55)
  else none

/-- The value of a digit in a base of at most sixteen. -/
def digit? (base : Nat) (c : Char) : Option Nat :=
  (hexDigit? c).filter (· < base)

/-- The number that digits in a base of at most sixteen stand for, if there are any. -/
def natural? (base : Nat) : List Char → Option Nat
  | [] => none
  | digits => digits.foldlM (fun value c => (digit? base c).map (base * value + ·)) 0

/-- The number that decimal digits stand for; no digits stand for zero. -/
def decimal (digits : List Char) : Nat :=
  digits.foldl (fun value c => 10 * value + (c.toNat - 48)) 0

/-- The character whose code point is written with some digits in base sixteen. -/
def codePoint? (digits : List Char) : Option Char := do
  let value ← natural? 16 digits
  if value.isValidChar then some (Char.ofNat value) else none

end QueryHooks.Text
