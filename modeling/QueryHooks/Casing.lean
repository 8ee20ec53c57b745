/-!
# Words and PascalCase

An operation name is read as a list of words, and a type or hook name is written from those words in
PascalCase.  Letters and digits are the ASCII ones; every other character separates words.

Main definitions:

- `words`: the words of a text, in order.
- `pascal`: the words written side by side, each capitalized, where a later word that begins with a
  digit is joined by an underscore so that the digit does not run into the word before it.
-/

namespace QueryHooks.Casing

/-! ## Words -/

/--
Whether `c` begins a new word directly after the letter or digit `before`, with `next?` following.
An upper-case letter does so after a lower-case letter or a digit, and it also does so as the last
capital of an acronym: after another upper-case letter and in front of a lower-case one.
-/
def startsWord (before c : Char) (next? : Option Char) : Bool :=
  c.isUpper && (before.isLower || before.isDigit || (before.isUpper && next?.any Char.isLower))

/-- Put a word in front of the words after it, unless it is empty. -/
def consWord (word : List Char) (later : List (List Char)) : List (List Char) :=
  if word.isEmpty then later else word :: later

/--
What follows `before?` in the text, split in two: the rest of the word that `before?` belongs to,
and the words after that one.
-/
def splitAfter : Option Char → List Char → List Char × List (List Char)
  | _, [] => ([], [])
  | before?, c :: rest =>
    if c.isAlphanum then
      let (word, later) := splitAfter (some c) rest
      if before?.any (startsWord · c rest.head?) then ([], (c :: word) :: later)
      else (c :: word, later)
    else
      let (word, later) := splitAfter none rest
      ([], consWord word later)

/-- The words of a text, in order; none of them is empty. -/
def words (text : List Char) : List (List Char) :=
  let (word, later) := splitAfter none text
  consWord word later

/-- An empty text has no words. -/
@[simp]
theorem words_nil : words [] = [] :=
  rfl

@[simp]
theorem splitAfter_nil (before? : Option Char) : splitAfter before? [] = ([], []) := by
  simp [splitAfter]

/-- A separator ends the word in front of it. -/
theorem splitAfter_separator {before? : Option Char} {c : Char} {rest : List Char}
    (h : c.isAlphanum = false) :
    splitAfter before? (c :: rest) =
      ([], consWord (splitAfter none rest).1 (splitAfter none rest).2) := by
  simp [splitAfter, h]

/-- A letter or digit that begins a new word leaves nothing of the word in front of it. -/
theorem splitAfter_of_startsWord {before? : Option Char} {c : Char} {rest : List Char}
    (h : c.isAlphanum = true) (hstart : before?.any (startsWord · c rest.head?) = true) :
    splitAfter before? (c :: rest) =
      ([], (c :: (splitAfter (some c) rest).1) :: (splitAfter (some c) rest).2) := by
  simp [splitAfter, h, hstart]

/-- A letter or digit that begins no new word goes on with the word in front of it. -/
theorem splitAfter_of_not_startsWord {before? : Option Char} {c : Char} {rest : List Char}
    (h : c.isAlphanum = true) (hstart : before?.any (startsWord · c rest.head?) = false) :
    splitAfter before? (c :: rest) =
      (c :: (splitAfter (some c) rest).1, (splitAfter (some c) rest).2) := by
  simp [splitAfter, h, hstart]

/-! ## PascalCase -/

/-- A word with its first character in upper case and the others in lower case. -/
def capitalize : List Char → List Char
  | [] => []
  | c :: rest => c.toUpper :: rest.map Char.toLower

/-- A word as it stands after another one: joined by an underscore if it begins with a digit. -/
def joined (word : List Char) : List Char :=
  if word.head?.any Char.isDigit then '_' :: capitalize word else capitalize word

/-- Words written side by side in PascalCase. -/
def pascalOfWords : List (List Char) → List Char
  | [] => []
  | word :: later => capitalize word ++ later.flatMap joined

/-- The PascalCase form of a text: `get_user_by_ID` is `GetUserById`, and `item_2` is `Item_2`. -/
def pascal (text : String) : String :=
  String.ofList (pascalOfWords (words text.toList))

/-- The PascalCase name of a text is made of its words. -/
@[simp]
theorem toList_pascal (text : String) :
    (pascal text).toList = pascalOfWords (words text.toList) := by
  simp [pascal]

end QueryHooks.Casing
