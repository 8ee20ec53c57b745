import QueryHooks.Document.Number

/-!
# Tokens of a document

A token is kept together with enough of its text to write it out again: `Token.source` gives back
what `Token.read` has taken from the text (`read_eq`), and that is never nothing (`length_read`).
-/

namespace QueryHooks.Document

/-- A token of a document. -/
inductive Token where
  /-- One of the punctuation characters. -/
  | punctuator (c : Char)
  /-- Three dots. -/
  | ellipsis
  | name (chars : List Char)
  /-- A text that is a number literal. -/
  | number (chars : List Char)
  /-- What stands between two quotes. -/
  | string (chars : List Char)
  /-- What stands between two triples of quotes. -/
  | block (chars : List Char)
  deriving DecidableEq, Repr

namespace Token

/-- Whether a character is a token by itself. -/
def isPunctuator (c : Char) : Bool :=
  ['!', '$', ':', '=', '@', '|', '&', '(', ')', '[', ']', '\x7b', '\x7d'].contains c

/-- Whether a name can begin with a character. -/
def isNameStart (c : Char) : Bool :=
  c.isAlpha || c == '_'

/-- Whether a name can go on with a character. -/
def isNamePart (c : Char) : Bool :=
  c.isAlphanum || c == '_'

/-- Whether a character ends a number literal. -/
def endsNumber (c : Char) : Bool :=
  isPunctuator c || [' ', '\n', '\r', '\t', ',', '#'].contains c

/--
The text up to the quote that ends a string, and the text behind that quote.  A quote after a
backslash does not end the string, unless that backslash itself stands after one; a line feed is not
allowed.
-/
def readString (escaped : Bool) : List Char → Option (List Char × List Char)
  | [] => none
  | c :: rest =>
    if c = '\n' then none
    else if c = '"' ∧ escaped = false then some ([], rest)
    else (readString (c == '\\' && !escaped) rest).map fun (chars, rest) => (c :: chars, rest)

/--
The text up to the three quotes that end a block string, and the text behind them.  Three quotes
after a backslash do not end it; `afterBackslash` says whether a backslash stands in front of the
text.
-/
def readBlock (afterBackslash : Bool) : List Char → Option (List Char × List Char)
  | '"' :: '"' :: '"' :: rest =>
    if afterBackslash then
      (readBlock false rest).map fun (chars, rest) => ('"' :: '"' :: '"' :: chars, rest)
    else some ([], rest)
  | c :: rest => (readBlock (c == '\\') rest).map fun (chars, rest) => (c :: chars, rest)
  | [] => none

/-- The first token of a text and what follows it, unless the text begins with no token. -/
def read : List Char → Option (Token × List Char)
  | [] => none
  | '.' :: '.' :: '.' :: rest => some (ellipsis, rest)
  | '"' :: '"' :: '"' :: rest => (readBlock false rest).map fun (chars, rest) => (block chars, rest)
  | '"' :: rest => (readString false rest).map fun (chars, rest) => (string chars, rest)
  | c :: rest =>
    if isPunctuator c then some (punctuator c, rest)
    else if isNameStart c then
      some (name (c :: rest.takeWhile isNamePart), rest.dropWhile isNamePart)
    else if c = '-' ∨ c.isDigit then
      let chars := c :: rest.takeWhile (!endsNumber ·)
      if (Number.parse? chars).isSome then some (number chars, rest.dropWhile (!endsNumber ·))
      else none
    else none

/-- The text of a token. -/
def source : Token → List Char
  | punctuator c => [c]
  | ellipsis => ['.', '.', '.']
  | name chars => chars
  | number chars => chars
  | string chars => '"' :: chars ++ ['"']
  | block chars => '"' :: '"' :: '"' :: chars ++ ['"', '"', '"']

/-- What is read of a string is what stands in front of the quote that ends it. -/
theorem readString_eq {escaped : Bool} {text chars rest : List Char}
    (h : readString escaped text = some (chars, rest)) : text = chars ++ '"' :: rest := by
  fun_induction readString escaped text generalizing chars rest with
  | case1 => simp at h
  | case2 => simp at h
  | case3 => simp_all
  | case4 =>
    simp only [Option.map_eq_some_iff, Prod.mk.injEq, Prod.exists] at h
    obtain ⟨_, _, h, rfl, rfl⟩ := h
    simp_all

/-- What is read of a block string is what stands in front of the three quotes that end it. -/
theorem readBlock_eq {afterBackslash : Bool} {text chars rest : List Char}
    (h : readBlock afterBackslash text = some (chars, rest)) :
    text = chars ++ '"' :: '"' :: '"' :: rest := by
  fun_induction readBlock afterBackslash text generalizing chars rest with
  | case1 =>
    simp only [Option.map_eq_some_iff, Prod.mk.injEq, Prod.exists] at h
    obtain ⟨_, _, h, rfl, rfl⟩ := h
    simp_all
  | case2 => simp_all
  | case3 =>
    simp only [Option.map_eq_some_iff, Prod.mk.injEq, Prod.exists] at h
    obtain ⟨_, _, h, rfl, rfl⟩ := h
    simp_all
  | case4 => simp at h

/-- A token is the beginning of the text it is read from. -/
theorem read_eq {text rest : List Char} {token : Token} (h : read text = some (token, rest)) :
    text = token.source ++ rest := by
  fun_cases read text with
  | case1 => simp [read] at h
  | case2 =>
    simp only [read, Option.some.injEq, Prod.mk.injEq] at h
    simp [← h.1, ← h.2, source]
  | case3 =>
    simp only [read, Option.map_eq_some_iff, Prod.mk.injEq, Prod.exists] at h
    obtain ⟨_, _, h, rfl, rfl⟩ := h
    simp [source, readBlock_eq h]
  | case4 =>
    simp_all only [read, Option.map_eq_some_iff, Prod.mk.injEq, Prod.exists]
    obtain ⟨_, _, h, rfl, rfl⟩ := h
    simp [source, readString_eq h]
  | case8 => simp_all +zetaDelta [read]
  | case9 => simp_all [read]
  | case5 | case6 | case7 =>
    simp_all +zetaDelta [read]
    simp [← h.1, ← h.2, source]

/-- Reading a token uses up some of the text. -/
theorem length_read {text rest : List Char} {token : Token} (h : read text = some (token, rest)) :
    rest.length < text.length := by
  have hne : token.source ≠ [] := by
    fun_cases read text with
    | case1 => simp [read] at h
    | case2 =>
      simp only [read, Option.some.injEq, Prod.mk.injEq] at h
      simp [← h.1, source]
    | case3 =>
      simp only [read, Option.map_eq_some_iff, Prod.mk.injEq, Prod.exists] at h
      obtain ⟨_, _, _, rfl, _⟩ := h
      simp [source]
    | case4 =>
      simp_all only [read, Option.map_eq_some_iff, Prod.mk.injEq, Prod.exists]
      obtain ⟨_, _, _, rfl, _⟩ := h
      simp [source]
    | case8 => simp_all +zetaDelta [read]
    | case9 => simp_all [read]
    | case5 | case6 | case7 =>
      simp_all +zetaDelta [read]
      simp [← h.1, source]
  rw [read_eq h, List.length_append]
  have := List.length_pos_iff.2 hne
  omega

end Token

end QueryHooks.Document
