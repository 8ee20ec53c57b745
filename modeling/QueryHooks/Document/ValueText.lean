import QueryHooks.Decimal.Shortest
import QueryHooks.Document.Syntax
import QueryHooks.Text.Blank
import QueryHooks.Text.Lines

/-!
# Values as text

A value is written on one line, but for strings of several lines, which are written as block
strings.

Main definitions: `stringText`, `Value.text`.
-/

namespace QueryHooks.Document

/-! ## Strings -/

/-- Whether a character has at most sixteen bits and is no control character of ASCII. -/
def isPlain (c : Char) : Bool :=
  '\x20' ≤ c && c ≤ '\uffff'

/-- The digits of a number, at least four of them. -/
def fourDigits (n : Nat) : List Char :=
  let digits := Nat.toDigits 10 n
  List.replicate (4 - digits.length) '0' ++ digits

/--
A character as it is written between quotes; one that is not plain is written by its decimal number.
-/
def escapeInQuotes (c : Char) : List Char :=
  if c = '\r' then ['\\', 'r']
  else if c = '\n' then ['\\', 'n']
  else if c = '\t' then ['\\', 't']
  else if c = '"' then ['\\', '"']
  else if c = '\\' then ['\\', '\\']
  else if isPlain c then [c]
  else '\\' :: 'u' :: fourDigits c.toNat

/-- A text where a backslash is put in front of each three quotes. -/
def escapeQuotes : List Char → List Char
  | '"' :: '"' :: '"' :: rest => '\\' :: '"' :: '"' :: '"' :: escapeQuotes rest
  | c :: rest => c :: escapeQuotes rest
  | [] => []

/-- A line as it is written in a block string, with its line feed. -/
def blockLine (line : List Char) : List Char :=
  if Text.isAllBlank line then ['\n'] else ' ' :: ' ' :: escapeQuotes line ++ ['\n']

/-- Whether a string is written as a block: it has several lines, and all else in it is plain. -/
def fitsBlock (value : List Char) : Bool :=
  value.contains '\n' && value.all fun c => isPlain c || ['\n', '\r', '\t'].contains c

/-- A string as it is written. -/
def stringText (value : List Char) : List Char :=
  let triple := ['"', '"', '"']
  if fitsBlock value then
    triple ++ '\n' :: (Text.lines value).flatMap blockLine ++ triple
  else '"' :: value.flatMap escapeInQuotes ++ ['"']

/-! ## Values -/

mutual

/-- A value as it is written. -/
def Value.text : Value → String
  | .reference name => "$" ++ name
  | .int value => toString value
  | .float value => value.text
  | .string value => String.ofList (stringText value)
  | .boolean true => "true"
  | .boolean false => "false"
  | .null => "null"
  | .enumeration name => name
  | .list items => "[" ++ ", ".intercalate (itemTexts items) ++ "]"
  | .object fields => "\x7b" ++ ", ".intercalate (fieldTexts fields) ++ "\x7d"

/-- The items of a list as they are written. -/
def itemTexts : List Value → List String
  | [] => []
  | item :: items => item.text :: itemTexts items

/-- The fields of an object as they are written. -/
def fieldTexts : List (String × Value) → List String
  | [] => []
  | (name, value) :: fields => (name ++ ": " ++ value.text) :: fieldTexts fields

end

end QueryHooks.Document
