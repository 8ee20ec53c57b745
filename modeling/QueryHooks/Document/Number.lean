import QueryHooks.Decimal.Binary64
import QueryHooks.Text.Digits

/-!
# Number literals

A literal is a whole number without leading zeros, with a fraction or an exponent if it is a
decimal.  The exponent begins with a sign or with one of the digits from 1 to 8.

Main definitions: `Number`, `Number.parse?`.
-/

namespace QueryHooks.Document

/-- The parts of a number literal, each of them digits. -/
structure Number where
  negative : Bool
  whole : List Char
  fraction? : Option (List Char)
  /-- Whether the exponent is negative, and its digits. -/
  exponent? : Option (Bool × List Char)
  deriving DecidableEq, Repr

namespace Number

/-- Whether a text is a whole number without leading zeros. -/
def isWhole (digits : List Char) : Bool :=
  match digits with
  | [] => false
  | ['0'] => true
  | first :: _ => first != '0'

/-- Read what follows the mark of an exponent. -/
def parseExponent? : List Char → Option (Bool × List Char)
  | [] => none
  | sign :: rest =>
    if sign = '+' ∨ sign = '-' then
      if rest ≠ [] ∧ rest.all Char.isDigit then some (sign = '-', rest) else none
    else if '1' ≤ sign ∧ sign ≤ '8' ∧ rest.all Char.isDigit then some (false, sign :: rest)
    else none

/-- Read what follows the whole part of a literal with the given sign. -/
def parseTail? (negative : Bool) (whole : List Char) (fraction? : Option (List Char)) :
    List Char → Option Number
  | [] => some ⟨negative, whole, fraction?, none⟩
  | mark :: rest =>
    if mark = 'e' ∨ mark = 'E' then
      (parseExponent? rest).map fun exponent => ⟨negative, whole, fraction?, some exponent⟩
    else none

/-- Read a text as a number literal. -/
def parse? (text : List Char) : Option Number :=
  let negative := text.head? == some '-'
  let body := if negative then text.tail else text
  let whole := body.takeWhile Char.isDigit
  if isWhole whole then
    match body.dropWhile Char.isDigit with
    | '.' :: rest =>
      let fraction := rest.takeWhile Char.isDigit
      if fraction.isEmpty then none
      else parseTail? negative whole (some fraction) (rest.dropWhile Char.isDigit)
    | rest => parseTail? negative whole none rest
  else none

/-- Whether the literal is a whole number, without fraction and exponent. -/
def isInteger (number : Number) : Bool :=
  number.fraction?.isNone && number.exponent?.isNone

/-- The value of a whole number. -/
def toInt (number : Number) : Int :=
  let value : Int := Text.decimal number.whole
  if number.negative then -value else value

/-- The nearest floating point number. -/
def toBinary64 (number : Number) : Decimal.Binary64 :=
  let fraction := number.fraction?.getD []
  let exponent : Int :=
    match number.exponent? with
    | none => 0
    | some (negative, digits) =>
      let value : Int := Text.decimal digits
      if negative then -value else value
  Decimal.Binary64.ofDecimal number.negative (Text.decimal (number.whole ++ fraction))
    (exponent - fraction.length)

end Number

end QueryHooks.Document
