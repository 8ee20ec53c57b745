import QueryHooks.Decimal.Binary64

/-!
# The shortest decimal of a floating point number

Of the decimals that read back as a number, the one with the fewest digits is chosen, and of those
the nearest to the number; a tie goes up.  It is written without an exponent.

Main definitions: `shortest`, `Binary64.text`.
-/

namespace QueryHooks.Decimal

/-- The number of digits that always suffice to tell two numbers of the format apart. -/
def maxDigits : Nat := 17

/-- The decimal exponent of the leading digit of `significand * 2 ^ exponent`. -/
def leadingExponent (significand : Nat) (exponent : Int) : Int :=
  let scaled := significand * twoTo exponent.toNat * tenTo 400 / twoTo (-exponent).toNat
  ((Nat.toDigits 10 scaled).length : Int) - 401

/--
Whether `digits * 10 ^ scale` reads back as `significand * 2 ^ exponent`: it lies between the
midpoints to the two neighbours, and on one of them only if the significand is even.
-/
def readsBack (significand : Nat) (exponent : Int) (digits : Nat) (scale : Int) : Bool :=
  let gap := if significand = twoTo 52 ∧ Binary64.minExponent < exponent then 1 else 2
  let unit := twoTo exponent.toNat * tenTo (-scale).toNat
  let value := 4 * digits * tenTo scale.toNat * twoTo (-exponent).toNat
  let low := (4 * significand - gap) * unit
  let high := (4 * significand + 2) * unit
  if significand % 2 = 0 then low ≤ value && value ≤ high else low < value && value < high

/-- The nearer of the two neighbours `digits` and `digits + 1` of a number on a decimal grid. -/
def nearer (significand : Nat) (exponent : Int) (digits : Nat) (scale : Int) : Nat :=
  let value := 2 * significand * twoTo exponent.toNat * tenTo (-scale).toNat
  let middle := (2 * digits + 1) * tenTo scale.toNat * twoTo (-exponent).toNat
  if value < middle then digits else digits + 1

/-- A decimal of at most `count` digits, where rounding up may have carried into one digit more. -/
def carried (count digits : Nat) (scale : Int) : Nat × Int :=
  if digits = tenTo count then (1, scale + count) else (digits, scale)

/-- The best decimal with `count` significant digits that reads back, if there is one. -/
def decimalOfLength? (significand : Nat) (exponent : Int) (count : Nat) : Option (Nat × Int) :=
  let scale := leadingExponent significand exponent - (count - 1 : Int)
  let digits := significand * twoTo exponent.toNat * tenTo (-scale).toNat /
    (twoTo (-exponent).toNat * tenTo scale.toNat)
  let best := nearer significand exponent digits scale
  let other := if best = digits then digits + 1 else digits
  if readsBack significand exponent best scale then some (carried count best scale)
  else if readsBack significand exponent other scale then some (carried count other scale)
  else none

/-- The shortest decimal `digits * 10 ^ scale` that reads back as `significand * 2 ^ exponent`. -/
def shortest (significand : Nat) (exponent : Int) : Nat × Int :=
  if significand = 0 then (0, 0)
  else
    ((List.range maxDigits).findSome? fun n =>
      decimalOfLength? significand exponent (n + 1)).getD (0, 0)

/-- The number `digits * 10 ^ scale` in positional notation, without a point if it is whole. -/
def positional (digits : Nat) (scale : Int) : List Char :=
  let body := Nat.toDigits 10 digits
  let places := (-scale).toNat
  if digits = 0 then ['0']
  else if places = 0 then body ++ List.replicate scale.toNat '0'
  else if places < body.length then
    body.take (body.length - places) ++ '.' :: body.drop (body.length - places)
  else '0' :: '.' :: (List.replicate (places - body.length) '0' ++ body)

/-- A number as its shortest decimal, in positional notation. -/
def Binary64.text : Binary64 → String
  | .finite negative significand exponent =>
    let (digits, scale) := shortest significand exponent
    let body := String.ofList (positional digits scale)
    if negative then "-" ++ body else body
  | .infinite negative => if negative then "-inf" else "inf"

end QueryHooks.Decimal
