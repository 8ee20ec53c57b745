/-!
# Messages

A message is a text of which some parts may be left open.  These are the parts that are made up by
other programs and libraries: what they say is not modelled, and a mark stands in its place that
tells what it is about.

Main definitions: `Omission`, `Message`, `Message.ofText`, `Message.fill`.
-/

namespace QueryHooks

/-- A part of a message that is left open. -/
inductive Omission where
  /-- How the program is used. -/
  | usage
  /-- The explanation of all arguments of the program. -/
  | help
  /-- What stands in a document where it cannot be read on, and what might stand there instead. -/
  | expectations
  /-- Why a text is no YAML document. -/
  | yamlFault
  /-- Where in a YAML document something is wrong, if that is said at all. -/
  | yamlPlace
  /-- Why a pattern has no regular expression. -/
  | regexFault
  /-- What is said of a crash of the program. -/
  | crash
  deriving DecidableEq, Repr

/-- A character of a message, or a part that is left open. -/
inductive Mark where
  | char (c : Char)
  | omitted (part : Omission)
  deriving DecidableEq, Repr

/-- A text of which some parts may be left open. -/
abbrev Message := List Mark

namespace Message

/-- The message that a text is by itself. -/
def ofText (text : String) : Message :=
  text.toList.map .char

/-- The message of which everything is left open. -/
def omitted (part : Omission) : Message :=
  [.omitted part]

/-- Messages one below the other, with no line feed after the last. -/
def unlines (rows : List Message) : Message :=
  (ofText "\n").intercalate rows

/-- The text of a message, where the parts that it leaves open are known. -/
def fill (parts : Omission → String) (message : Message) : String :=
  String.ofList (message.flatMap fun
    | .char c => [c]
    | .omitted part => (parts part).toList)

/-- The message of two texts is made of theirs. -/
theorem ofText_append (text later : String) :
    ofText (text ++ later) = ofText text ++ ofText later := by
  rw [ofText, String.toList_append, List.map_append]
  rfl

end Message

end QueryHooks
