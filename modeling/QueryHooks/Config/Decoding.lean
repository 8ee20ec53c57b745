import QueryHooks.Config.Options
import QueryHooks.Message
import QueryHooks.Yaml.Document

/-!
# Options from a YAML document

The entries of a mapping are decoded in order, up to the first that is wrong.  Keys that name no
option are passed over with their values.

Main definitions: `Malformed`, `Options.ofEntries`, `Options.ofText`.
-/

namespace QueryHooks

open Yaml (Node)

/-- Why a text gives no options. -/
inductive Malformed where
  /-- The text is no YAML document that can be loaded. -/
  | unloadable
  /-- An option is given a second time. -/
  | duplicate (option : OptionName)
  /-- A value has the wrong type; the path is empty for the document itself and for its keys. -/
  | unexpected (path found expected : String)
  /-- The value of a pattern option is neither a text nor a list of texts. -/
  | notPatterns
  /-- There is a tag of the document's own in the value of a pattern option. -/
  | tagged (path : String)
  deriving DecidableEq, Repr

/--
What is wrong, without the place in the document; this is left open if the text is no document.
-/
def Malformed.cause : Malformed → Message
  | unloadable => .omitted .yamlFault
  | duplicate option => .ofText ("duplicate field `" ++ option.text ++ "`")
  | unexpected path found expected =>
    .ofText ((if path.isEmpty then "" else path ++ ": ") ++ "invalid type: " ++ found ++
      ", expected " ++ expected)
  | notPatterns => .ofText "a glob pattern string or a list of glob pattern strings"
  | tagged path =>
    .ofText (path ++ ": untagged and internally tagged enums do not support enum input")

/-- The text of the error. -/
def Malformed.message (error : Malformed) : Message :=
  error.cause ++ .omitted .yamlPlace

/-- The result of decoding a part of a document. -/
abbrev Decoded (α : Type) := Except Malformed α

namespace Options

/-! ## Values of options -/

/-- The error for a node of the wrong type. -/
def mismatch (path : String) (node : Node) (expected : String) : Malformed :=
  match node.found? with
  | none => .unloadable
  | some found => .unexpected path found expected

/--
Whether a scalar can be a boolean: it is plain, or it is a literal block with the tag of booleans.
-/
def mayBeBool (tag? : Option String) (style : Yaml.Style) : Bool :=
  style == .plain || style == .literal && tag? == some (Yaml.standardTag "bool")

/-- The boolean that a node stands for. -/
def decodeBool (path : String) (node : Node) : Decoded Bool :=
  let value? :=
    match node with
    | .scalar tag? style text => if mayBeBool tag? style then Yaml.boolean? text else none
    | _ => none
  match value? with
  | some value => .ok value
  | none => .error (mismatch path node "a boolean")

/-- The text of a scalar, whatever its type. -/
def decodeText (path : String) (node : Node) : Decoded String :=
  match node with
  | .scalar _ _ text => .ok text
  | _ => .error (mismatch path node "a string")

/-- The path of a key's value, where the key is not known if it is an alias or no scalar. -/
def keyPath (key : Node) : String :=
  match key with
  | .scalar _ _ text => text
  | _ => "?"

/-- The first of the results that there are. -/
def firstOf {α : Type} (results : List (Option α)) : Option α :=
  results.findSome? id

/-- The path of the first node with a tag of the document's own, down to some depth. -/
def taggedPath? (document : Yaml.Document) : Nat → String → Node → Option String
  | depth, path, node =>
    let node := document.target node
    if node.tag?.any Yaml.isOwnTag then some path
    else
      match depth, node with
      | depth + 1, .sequence _ items =>
        firstOf (items.zipIdx.map fun (item, index) =>
          taggedPath? document depth (path ++ "[" ++ toString index ++ "]") item)
      | depth + 1, .mapping _ entries =>
        firstOf (entries.map fun (key, value) =>
          (taggedPath? document depth path key).or
            (taggedPath? document depth (path ++ "." ++ keyPath key) value))
      | _, _ => none

/-- The texts of a sequence, if all its items are texts. -/
def texts? (items : List Yaml.Value) : Option (List String) :=
  items.mapM fun
    | .string text => some text
    | _ => none

/-- Whether a node stands for null. -/
def isNull : Node → Bool
  | .scalar none .plain text => Yaml.isNull text
  | .scalar (some tag) .plain text =>
    tag == Yaml.standardTag "null" && text != "" && Yaml.isNull text
  | _ => false

/-- The setting of a pattern option that a node stands for; null stands for none. -/
def decodePatterns (document : Yaml.Document) (path : String) (node : Node) :
    Decoded (Option PatternSetting) :=
  if isNull node then .ok none
  else
    match document.valueOf? node, taggedPath? document Yaml.Document.maxDepth path node with
    | none, _ => .error .unloadable
    | some _, some path => .error (.tagged path)
    | some (.string pattern), none => .ok (some (.single pattern))
    | some (.sequence items), none =>
      match texts? items with
      | some patterns => .ok (some (.multiple patterns))
      | none => .error .notPatterns
    | some _, none => .error .notPatterns

/-- The setting of an option that a node stands for. -/
def decodeSetting (document : Yaml.Document) (option : OptionName) (path : String) (node : Node) :
    Decoded Setting :=
  match option with
  | .excludeQueries => (decodePatterns document path node).map .excludeQueries
  | .infiniteQueries => (decodePatterns document path node).map .infiniteQueries
  | .autogenKey => (decodeBool path node).map .autogenKey
  | .rawResponse => (decodeBool path node).map .rawResponse
  | .typesPrefix => (decodeText path node).map .typesPrefix
  | .typesSuffix => (decodeText path node).map .typesSuffix
  | .useTypeImports => (decodeBool path node).map .useTypeImports

/-! ## Entries -/

/-- The text of a key, which has to be a scalar. -/
def decodeKey (node : Node) : Decoded String :=
  match node with
  | .scalar _ _ text => .ok text
  | _ => .error (mismatch "" node "field identifier")

/--
The setting of an entry, or none if its key names no option; `seen` are the options given before.
-/
def decodeEntry (document : Yaml.Document) (seen : List OptionName) (entry : Node × Node) :
    Decoded (Option Setting) := do
  let key ← decodeKey (document.target entry.1)
  match OptionName.ofKey? key with
  | none => return none
  | some option =>
    if option ∈ seen then throw (.duplicate option)
    else return some (← decodeSetting document option (keyPath entry.1) (document.target entry.2))

/-- The settings of the entries of a mapping, in order. -/
def decodeEntries (document : Yaml.Document) (seen : List OptionName) :
    List (Node × Node) → Decoded (List Setting)
  | [] => .ok []
  | entry :: entries => do
    match ← decodeEntry document seen entry with
    | none => decodeEntries document seen entries
    | some setting => return setting :: (← decodeEntries document (setting.name :: seen) entries)

/-- The options that the entries of a mapping give. -/
def ofEntries (document : Yaml.Document) (entries : List (Node × Node)) : Decoded Options :=
  (decodeEntries document [] entries).map ofSettings

/-- The options that a document gives; what is empty gives none. -/
def ofDocument (document : Yaml.Document) : Decoded Options :=
  match document.root? with
  | none => .ok {}
  | some root =>
    match document.target root with
    | .mapping _ entries => ofEntries document entries
    | .scalar _ .plain "" => .ok {}
    | node => .error (mismatch "" node "struct RawSwrConfig")

/-- The options that a text gives.  That it cannot be loaded goes before any other error. -/
def ofText (text : String) : Decoded Options :=
  match Yaml.Document.parse? text with
  | none => .error .unloadable
  | some document =>
    match ofDocument document with
    | .ok options => .ok options
    | .error error => if document.value?.isSome then .error error else .error .unloadable

end Options

end QueryHooks
