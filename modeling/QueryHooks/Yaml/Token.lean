/-!
# Tokens of a YAML text

Besides the marks that are written, there are tokens for the start and the end of block collections,
which follow from the indentation.
-/

namespace QueryHooks.Yaml

/-- How a scalar is written. -/
inductive Style where
  /-- Without quotes, so that its text decides what it is. -/
  | plain
  /-- In quotes or as a folded block; it is a string. -/
  | quoted
  /-- As a literal block; it is a string, unless its tag makes it something else. -/
  | literal
  deriving DecidableEq, Repr

/-- A token of a YAML text. -/
inductive Token where
  /-- The version of YAML that a document asks for. -/
  | version (major minor : Nat)
  /-- The text that a handle stands for in the tags of a document. -/
  | handle (name text : String)
  | documentStart
  | documentEnd
  | blockSequenceStart
  | blockMappingStart
  | blockEnd
  | flowSequenceStart
  | flowSequenceEnd
  | flowMappingStart
  | flowMappingEnd
  /-- The dash in front of an item of a block sequence. -/
  | blockEntry
  /-- The comma behind an item of a flow collection. -/
  | flowEntry
  /-- What comes next is a key; the question mark need not be written. -/
  | key
  /-- The colon in front of a value. -/
  | value
  | aliasTo (name : String)
  | anchor (name : String)
  | tag (handle text : String)
  | scalar (style : Style) (text : String)
  deriving DecidableEq, Repr

end QueryHooks.Yaml
