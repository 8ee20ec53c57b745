import QueryHooks.Decimal.Power

/-!
# Binary floating point numbers of 64 bits

A number is kept as its sign and the pair `m`, `q` of `m * 2 ^ q`; there is no record of bits.  A
decimal number is read as the nearest such number, and a tie goes to the even significand.

Main definitions: `Binary64`, `Binary64.ofDecimal`.
-/

namespace QueryHooks.Decimal

/-- A number of the binary64 format other than NaN. -/
inductive Binary64 where
  /-- The number `significand * 2 ^ exponent`, with a sign also at zero. -/
  | finite (negative : Bool) (significand : Nat) (exponent : Int)
  /-- What is too large in size for the format. -/
  | infinite (negative : Bool)
  deriving DecidableEq, Repr

namespace Binary64

/-- The exponent of the smallest numbers of the format. -/
def minExponent : Int := -1074

/-- The greatest exponent of a significand of 53 bits. -/
def maxExponent : Int := 971

/-- Whether the number is finite. -/
def isFinite : Binary64 → Bool
  | finite .. => true
  | infinite _ => false

/-- The quotient of two natural numbers, rounded to the nearest; a tie goes to the even one. -/
def roundDiv (num den : Nat) : Nat :=
  let quotient := num / den
  let remainder := num % den
  if 2 * remainder < den then quotient
  else if den < 2 * remainder then quotient + 1
  else quotient + quotient % 2

/-- The quotient of two positive natural numbers as the nearest number of the format. -/
def ofQuotient (negative : Bool) (num den : Nat) : Binary64 :=
  let estimate : Int := (Nat.log2 num : Int) - Nat.log2 den
  let atLeast : Bool := den * twoTo estimate.toNat ≤ num * twoTo (-estimate).toNat
  let magnitude := if atLeast then estimate else estimate - 1
  let exponent := max (magnitude - 52) minExponent
  let significand := roundDiv (num * twoTo (-exponent).toNat) (den * twoTo exponent.toNat)
  if maxExponent < exponent ∨ (exponent = maxExponent ∧ twoTo 53 ≤ significand) then
    infinite negative
  else if significand = twoTo 53 then finite negative (twoTo 52) (exponent + 1)
  else finite negative significand exponent

/--
The number `digits * 10 ^ exponent` as the nearest number of the format.  An exponent far beyond the
range of the format is answered without raising ten to it.
-/
def ofDecimal (negative : Bool) (digits : Nat) (exponent : Int) : Binary64 :=
  let length : Int := (Nat.toDigits 10 digits).length
  if digits = 0 ∨ length + exponent < -400 then finite negative 0 minExponent
  else if 400 < length + exponent then infinite negative
  else ofQuotient negative (digits * tenTo exponent.toNat) (tenTo (-exponent).toNat)

end Binary64

end QueryHooks.Decimal
