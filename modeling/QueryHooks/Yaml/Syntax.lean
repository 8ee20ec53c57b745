import QueryHooks.Yaml.Token

/-!
# Syntax of a YAML document

The tokens of a text are read as a tree of nodes.  Where a node is missing, an empty plain scalar
stands in its place.

Main definitions: `Syntax`, `Tags`, `document?`.
-/

namespace QueryHooks.Yaml

/-- What is written in front of a node. -/
structure Properties where
  anchor? : Option String := none
  /-- The tag, written out in full. -/
  tag? : Option String := none
  deriving DecidableEq, Repr

/-- A node as it is written. -/
inductive Syntax where
  | aliasTo (name : String)
  | scalar (properties : Properties) (style : Style) (text : String)
  | sequence (properties : Properties) (items : List Syntax)
  | mapping (properties : Properties) (entries : List (Syntax × Syntax))
  deriving Repr

/-- A scalar that is not written. -/
def Syntax.empty (properties : Properties) : Syntax :=
  scalar properties .plain ""

/-! ## Tags -/

/-- The handles of a document, with what they stand for. -/
abbrev Tags := List (String × String)

/-- The handles that every document has. -/
def defaultTags : Tags :=
  [("!", "!"), ("!!", "tag:yaml.org,2002:")]

/-- The tag that a handle and a text stand for. -/
def Tags.expand? (tags : Tags) (handle text : String) : Option String :=
  if handle = "" then some text else (tags.lookup handle).map (· ++ text)

/--
Take the directives in front of a document.  None may be given twice, and the version has to be 1.1
or 1.2.
-/
def takeDirectives? (versioned : Bool) (tags : Tags) : List Token → Option (Tags × List Token)
  | .version major minor :: tokens =>
    if versioned ∨ major ≠ 1 ∨ (minor ≠ 1 ∧ minor ≠ 2) then none
    else takeDirectives? true tags tokens
  | .handle name text :: tokens =>
    if (tags.lookup name).isSome then none
    else takeDirectives? versioned ((name, text) :: tags) tokens
  | tokens => some (tags ++ defaultTags, tokens)

/-! ## Nodes -/

/-- Where a node stands, which decides what it can be. -/
inductive Context where
  /-- In a block collection or alone. -/
  | block
  /-- In a block mapping, where the items of a sequence need not be indented. -/
  | blockMapping
  /-- In a flow collection. -/
  | flow
  deriving DecidableEq, Repr

/-- Take the anchor and the tag of a node, in either order. -/
def takeProperties? (tags : Tags) : List Token → Option (Properties × List Token)
  | .anchor name :: .tag handle text :: tokens =>
    (tags.expand? handle text).map fun tag => (⟨some name, some tag⟩, tokens)
  | .tag handle text :: .anchor name :: tokens =>
    (tags.expand? handle text).map fun tag => (⟨some name, some tag⟩, tokens)
  | .anchor name :: tokens => some (⟨some name, none⟩, tokens)
  | .tag handle text :: tokens =>
    (tags.expand? handle text).map fun tag => (⟨none, some tag⟩, tokens)
  | tokens => some ({}, tokens)

/-- The properties of a scalar; a tag that is only an exclamation mark says that it is plain. -/
def scalarOf (properties : Properties) (style : Style) (text : String) : Syntax :=
  if properties.tag? = some "!" then .scalar { properties with tag? := none } style text
  else .scalar properties style text

/-- Whether the next token is none of some that show that a node is missing. -/
def isNode (missing : List Token) (tokens : List Token) : Bool :=
  match tokens with
  | [] => true
  | token :: _ => !missing.contains token

mutual

/-- Take a node. -/
def takeNode? (tags : Tags) (context : Context) : Nat → List Token → Option (Syntax × List Token)
  | 0, _ => none
  | fuel + 1, tokens => do
    match tokens with
    | .aliasTo name :: tokens => return (.aliasTo name, tokens)
    | _ =>
      let (properties, tokens) ← takeProperties? tags tokens
      match tokens, context with
      | .blockEntry :: _, .blockMapping =>
        let (items, tokens) ← takeUnindented? tags fuel tokens
        return (.sequence properties items, tokens)
      | .scalar style text :: tokens, _ => return (scalarOf properties style text, tokens)
      | .flowSequenceStart :: tokens, _ =>
        let (items, tokens) ← takeFlowItems? tags true fuel tokens
        return (.sequence properties items, tokens)
      | .flowMappingStart :: tokens, _ =>
        let (entries, tokens) ← takeFlowEntries? tags true fuel tokens
        return (.mapping properties entries, tokens)
      | .blockSequenceStart :: tokens, .block | .blockSequenceStart :: tokens, .blockMapping =>
        let (items, tokens) ← takeBlockItems? tags fuel tokens
        return (.sequence properties items, tokens)
      | .blockMappingStart :: tokens, .block | .blockMappingStart :: tokens, .blockMapping =>
        let (entries, tokens) ← takeBlockEntries? tags fuel tokens
        return (.mapping properties entries, tokens)
      | tokens, _ => if properties = {} then none else return (.empty properties, tokens)

/-- Take a node, or an empty one in front of one of some tokens. -/
def takeOptional? (tags : Tags) (context : Context) (missing : List Token) :
    Nat → List Token → Option (Syntax × List Token)
  | 0, _ => none
  | fuel + 1, tokens =>
    if isNode missing tokens then takeNode? tags context fuel tokens else some (.empty {}, tokens)

/-- Take the items of a block sequence up to and over its end. -/
def takeBlockItems? (tags : Tags) : Nat → List Token → Option (List Syntax × List Token)
  | 0, _ => none
  | fuel + 1, tokens => do
    match tokens with
    | .blockEntry :: tokens =>
      let (item, tokens) ← takeOptional? tags .block [.blockEntry, .blockEnd] fuel tokens
      let (items, tokens) ← takeBlockItems? tags fuel tokens
      return (item :: items, tokens)
    | .blockEnd :: tokens => return ([], tokens)
    | _ => none

/-- Take the items of a block sequence that is not indented in the mapping around it. -/
def takeUnindented? (tags : Tags) : Nat → List Token → Option (List Syntax × List Token)
  | 0, _ => none
  | fuel + 1, tokens => do
    match tokens with
    | .blockEntry :: tokens =>
      let (item, tokens) ←
        takeOptional? tags .block [.blockEntry, .key, .value, .blockEnd] fuel tokens
      let (items, tokens) ← takeUnindented? tags fuel tokens
      return (item :: items, tokens)
    | tokens => return ([], tokens)

/-- Take the entries of a block mapping up to and over its end. -/
def takeBlockEntries? (tags : Tags) :
    Nat → List Token → Option (List (Syntax × Syntax) × List Token)
  | 0, _ => none
  | fuel + 1, tokens => do
    match tokens with
    | .key :: tokens =>
      let missing := [.key, .value, .blockEnd]
      let (key, tokens) ← takeOptional? tags .blockMapping missing fuel tokens
      let (value, tokens) ←
        match tokens with
        | .value :: tokens => takeOptional? tags .blockMapping missing fuel tokens
        | tokens => some (.empty {}, tokens)
      let (entries, tokens) ← takeBlockEntries? tags fuel tokens
      return ((key, value) :: entries, tokens)
    | .blockEnd :: tokens => return ([], tokens)
    | _ => none

/-- Take the items of a flow sequence up to and over its end. -/
def takeFlowItems? (tags : Tags) (first : Bool) :
    Nat → List Token → Option (List Syntax × List Token)
  | 0, _ => none
  | fuel + 1, tokens => do
    match tokens, first with
    | .flowSequenceEnd :: tokens, _ => return ([], tokens)
    | .flowEntry :: .flowSequenceEnd :: tokens, false => return ([], tokens)
    | .flowEntry :: tokens, false =>
      let (item, tokens) ← takeFlowItem? tags fuel tokens
      let (items, tokens) ← takeFlowItems? tags false fuel tokens
      return (item :: items, tokens)
    | _, false => none
    | tokens, true =>
      let (item, tokens) ← takeFlowItem? tags fuel tokens
      let (items, tokens) ← takeFlowItems? tags false fuel tokens
      return (item :: items, tokens)

/--
Take an item of a flow sequence, which may be a mapping of one entry without brackets.  Where the
key of such an entry is missing, the token that shows it is passed over.
-/
def takeFlowItem? (tags : Tags) : Nat → List Token → Option (Syntax × List Token)
  | 0, _ => none
  | fuel + 1, tokens => do
    match tokens with
    | .key :: tokens =>
      let (key, tokens) ←
        if isNode [.value, .flowEntry, .flowSequenceEnd] tokens then
          takeNode? tags .flow fuel tokens
        else some (.empty {}, tokens.tail)
      let (value, tokens) ←
        match tokens with
        | .value :: tokens => takeOptional? tags .flow [.flowEntry, .flowSequenceEnd] fuel tokens
        | tokens => some (.empty {}, tokens)
      return (.mapping {} [(key, value)], tokens)
    | tokens => takeNode? tags .flow fuel tokens

/-- Take the entries of a flow mapping up to and over its end. -/
def takeFlowEntries? (tags : Tags) (first : Bool) :
    Nat → List Token → Option (List (Syntax × Syntax) × List Token)
  | 0, _ => none
  | fuel + 1, tokens => do
    match tokens, first with
    | .flowMappingEnd :: tokens, _ => return ([], tokens)
    | .flowEntry :: .flowMappingEnd :: tokens, false => return ([], tokens)
    | .flowEntry :: tokens, false =>
      let (entry, tokens) ← takeFlowPair? tags fuel tokens
      let (entries, tokens) ← takeFlowEntries? tags false fuel tokens
      return (entry :: entries, tokens)
    | _, false => none
    | tokens, true =>
      let (entry, tokens) ← takeFlowPair? tags fuel tokens
      let (entries, tokens) ← takeFlowEntries? tags false fuel tokens
      return (entry :: entries, tokens)

/-- Take an entry of a flow mapping; what is not marked as a key has no value. -/
def takeFlowPair? (tags : Tags) : Nat → List Token → Option ((Syntax × Syntax) × List Token)
  | 0, _ => none
  | fuel + 1, tokens => do
    match tokens with
    | .key :: tokens =>
      let (key, tokens) ← takeOptional? tags .flow [.value, .flowEntry, .flowMappingEnd] fuel tokens
      let (value, tokens) ←
        match tokens with
        | .value :: tokens => takeOptional? tags .flow [.flowEntry, .flowMappingEnd] fuel tokens
        | tokens => some (.empty {}, tokens)
      return ((key, value), tokens)
    | tokens =>
      let (key, tokens) ← takeNode? tags .flow fuel tokens
      return ((key, .empty {}), tokens)

end

/-! ## Documents -/

/-- Whether the next token cannot begin the node of a document. -/
def endsDocument : List Token → Bool
  | [] => true
  | .version .. :: _ | .handle .. :: _ | .documentStart :: _ | .documentEnd :: _ => true
  | _ => false

/--
The number of calls within which a list of tokens is read, since each token takes at most four.
-/
def nodeFuel (tokens : List Token) : Nat :=
  4 * tokens.length + 4

/-- The node of a document that begins with these tokens, and the tokens behind it. -/
def takeDocument? (tokens : List Token) : Option (Syntax × List Token) := do
  let (tags, later) ← takeDirectives? false [] tokens
  match later with
  | .documentStart :: later =>
    if endsDocument later then return (.empty {}, later)
    else takeNode? tags .block (nodeFuel later) later
  | later =>
    if later.length < tokens.length then none else takeNode? tags .block (nodeFuel later) later

/-- The node of the only document of some tokens; there is none if there are no tokens. -/
def document? (tokens : List Token) : Option (Option Syntax) :=
  if tokens.isEmpty then some none
  else do
    let (node, later) ← takeDocument? tokens
    if later.all (· = .documentEnd) then return some node else none

end QueryHooks.Yaml
