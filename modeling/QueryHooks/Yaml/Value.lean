import QueryHooks.Decimal.Shortest
import QueryHooks.Text.Digits
import QueryHooks.Text.Quoted
import QueryHooks.Yaml.Token

/-!
# Values of a YAML document

What the nodes of a document stand for.  A plain scalar is read as null, a boolean, a number or a
string, by its text alone; integers have at most 64 bits.

Main definitions: `Value`, `plainValue?`, `scalarValue?`, `Value.same`, `Value.found`.
-/

namespace QueryHooks.Yaml

open Decimal (Binary64)
open Text (natural?)

/-- A value of a YAML document. -/
inductive Value where
  | null
  | boolean (value : Bool)
  | integer (value : Int)
  /-- A floating point number; none is what is not a number. -/
  | float (value? : Option Binary64)
  | string (value : String)
  | sequence (items : List Value)
  | mapping (entries : List (Value × Value))
  /-- A value with a tag of the document's own. -/
  | tagged (tag : String) (value : Value)
  deriving Repr

/-! ## Plain scalars -/

/-- Whether a text stands for null. -/
def isNull (text : String) : Bool :=
  ["", "~", "null", "Null", "NULL"].contains text

/-- The boolean that a text stands for. -/
def boolean? (text : String) : Option Bool :=
  if ["true", "True", "TRUE"].contains text then some true
  else if ["false", "False", "FALSE"].contains text then some false
  else none

/-- A sign in front of a text, and the text without it; there may be no sign. -/
def splitSign (text : List Char) : Bool × List Char :=
  match text with
  | '-' :: rest => (true, rest)
  | '+' :: rest => (false, rest)
  | _ => (false, text)

/-- Whether a number, but for its sign, has a digit behind a zero at its start and digits only. -/
def hasLeadingZero (text : List Char) : Bool :=
  match (splitSign text).2 with
  | '0' :: c :: rest => (c :: rest).all Char.isDigit
  | _ => false

/-- The integer that a text stands for, of any size. -/
def integer? (text : List Char) : Option Int :=
  let (negative, body) := splitSign text
  let value? :=
    match body with
    | '0' :: 'x' :: digits => natural? 16 digits
    | '0' :: 'o' :: digits => natural? 8 digits
    | '0' :: 'b' :: digits => natural? 2 digits
    | digits => if hasLeadingZero text then none else natural? 10 digits
  value?.map fun value => if negative then -value else value

/-- The exponent of a number, which may be missing. -/
def exponent? : List Char → Option Int
  | [] => some 0
  | mark :: rest =>
    if mark = 'e' ∨ mark = 'E' then
      let (negative, digits) := splitSign rest
      (natural? 10 digits).map fun value => if negative then -value else value
    else none

/-- The number that a text without a sign stands for, unless it is too large in size. -/
def decimal? (negative : Bool) (text : List Char) : Option Binary64 := do
  let whole := text.takeWhile Char.isDigit
  let rest := text.dropWhile Char.isDigit
  let (fraction, rest) :=
    match rest with
    | '.' :: rest => (rest.takeWhile Char.isDigit, rest.dropWhile Char.isDigit)
    | _ => ([], rest)
  let exponent ← exponent? rest
  if whole.isEmpty && fraction.isEmpty then none
  else
    let value := Binary64.ofDecimal negative (Text.decimal (whole ++ fraction))
      (exponent - fraction.length)
    if value.isFinite then some value else none

/--
The floating point number that a text stands for; the inner option is empty for what is no number.
-/
def float? (text : String) : Option (Option Binary64) :=
  let (negative, body) := splitSign text.toList
  let infinities := [".inf", ".Inf", ".INF"].map String.toList
  if [".nan", ".NaN", ".NAN"].contains text then some none
  else if infinities.contains body then some (some (.infinite negative))
  else (decimal? negative body).map some

/-- Whether an integer has 64 bits, with or without a sign. -/
def isWord (value : Int) : Bool :=
  Decimal.fitsSigned 63 value || Decimal.fitsUnsigned 64 value

/--
The value of a plain scalar.  An integer of more than 64 bits has none; but if even 128 bits do not
hold it, it is read as a floating point number.
-/
def plainValue? (text : String) : Option Value :=
  if isNull text then some .null
  else
    match boolean? text with
    | some value => some (.boolean value)
    | none =>
      let other : Value :=
        if hasLeadingZero text.toList then .string text
        else
          match float? text with
          | some value? => .float value?
          | none => .string text
      match integer? text.toList with
      | none => some other
      | some value =>
        if isWord value then some (.integer value)
        else if Decimal.fitsSigned 127 value || Decimal.fitsUnsigned 128 value then none
        else some other

/-! ## Scalars with tags -/

/-- What the tags of the standard types begin with. -/
def standardTag (name : String) : String :=
  "tag:yaml.org,2002:" ++ name

/-- Whether a tag is of the document's own. -/
def isOwnTag (tag : String) : Bool :=
  tag.startsWith "!"

/-- The value of a scalar, unless its text does not fit its tag. -/
def scalarValue? (tag? : Option String) (style : Style) (text : String) : Option Value :=
  let untagged := if style = .plain then plainValue? text else some (.string text)
  match tag? with
  | none => untagged
  | some tag =>
    if tag = standardTag "bool" then (boolean? text).map .boolean
    else if tag = standardTag "int" then
      (integer? text.toList).bind fun value =>
        if isWord value then some (.integer value) else none
    else if tag = standardTag "float" then (float? text).map .float
    else if tag = standardTag "null" then if isNull text && text != "" then some .null else none
    else if isOwnTag tag then untagged
    else some (.string text)

/-! ## Comparison -/

/-- Whether two numbers are equal, where the zeros of both signs are. -/
def sameNumber : Binary64 → Binary64 → Bool
  | .finite _ 0 _, .finite _ 0 _ => true
  | number, other => number == other

mutual

/-- Whether two values are equal; the order of the entries of a mapping does not count. -/
def Value.same : Value → Value → Bool
  | .null, .null => true
  | .boolean value, .boolean other => value == other
  | .integer value, .integer other => value == other
  | .float none, .float none => true
  | .float (some value), .float (some other) => sameNumber value other
  | .string value, .string other => value == other
  | .sequence items, .sequence others => sameItems items others
  | .mapping entries, .mapping others =>
    entries.length == others.length && sameEntries entries others
  | .tagged tag value, .tagged otherTag other => tag == otherTag && value.same other
  | _, _ => false

/-- Whether two lists have equal items at each place. -/
def sameItems : List Value → List Value → Bool
  | [], [] => true
  | item :: items, other :: others => item.same other && sameItems items others
  | _, _ => false

/-- Whether each entry has an equal among some others. -/
def sameEntries : List (Value × Value) → List (Value × Value) → Bool
  | [], _ => true
  | (key, value) :: entries, others => hasEntry key value others && sameEntries entries others

/-- Whether an entry is among some others. -/
def hasEntry (key value : Value) : List (Value × Value) → Bool
  | [] => false
  | (otherKey, other) :: others =>
    key.same otherKey && value.same other || hasEntry key value others

end

/-! ## Description -/

/-- A number with a point, as it is written in messages. -/
def numberText (number : Binary64) : String :=
  if number.isFinite && !number.text.contains '.' then number.text ++ ".0" else number.text

/-- What was found where a value of another type was expected. -/
def Value.found : Value → String
  | .null => "unit value"
  | .boolean value => "boolean `" ++ toString value ++ "`"
  | .integer value => "integer `" ++ toString value ++ "`"
  | .float none => "floating point `NaN`"
  | .float (some value) => "floating point `" ++ numberText value ++ "`"
  | .string value => "string " ++ Text.quote value
  | .sequence _ => "sequence"
  | .mapping _ => "map"
  | .tagged _ value => value.found

end QueryHooks.Yaml
