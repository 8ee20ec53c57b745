/-!
# Blank characters

The characters with the Unicode property `White_Space`, and the trimming of texts by them.

Main statement: a text that ends in a character other than a blank keeps its end (`trimEnd_concat`).
-/

namespace QueryHooks.Text

/-- The code points of Unicode's `White_Space` property, as inclusive ranges in ascending order. -/
def blankRanges : List (Nat × Nat) :=
  [(0x09, 0x0D), (0x20, 0x20), (0x85, 0x85), (0xA0, 0xA0), (0x1680, 0x1680), (0x2000, 0x200A),
    (0x2028, 0x2029), (0x202F, 0x202F), (0x205F, 0x205F), (0x3000, 0x3000)]

/-- Whether a character is white space by Unicode. -/
def isBlank (c : Char) : Bool :=
  blankRanges.any fun (low, high) => low ≤ c.toNat && c.toNat ≤ high

/-- A text without the blanks at its start. -/
def trimStart (text : List Char) : List Char :=
  text.dropWhile isBlank

/-- A text without the blanks at its end. -/
def trimEnd (text : List Char) : List Char :=
  (text.reverse.dropWhile isBlank).reverse

/-- A text that ends in no blank has nothing to lose at its end. -/
theorem trimEnd_concat {text : List Char} {c : Char} (h : isBlank c = false) :
    trimEnd (text ++ [c]) = text ++ [c] := by
  simp [trimEnd, h]

/-- A blank at the end is lost. -/
theorem trimEnd_concat_blank {text : List Char} {c : Char} (h : isBlank c = true) :
    trimEnd (text ++ [c]) = trimEnd text := by
  simp [trimEnd, h]

/-- A text without the blanks at its start and at its end. -/
def trim (text : List Char) : List Char :=
  trimEnd (trimStart text)

/-- Whether a text holds blanks only. -/
def isAllBlank (text : List Char) : Bool :=
  text.all isBlank

end QueryHooks.Text
