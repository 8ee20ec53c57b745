import QueryHooks.Yaml.Layout
import QueryHooks.Yaml.Syntax
import QueryHooks.Yaml.Value

/-!
# YAML documents

A document is its root and the nodes that aliases refer to.  An anchor is numbered by the count of
the names that were anchored before it, and an alias stands for the node that was anchored last
under the number of its name.

Main definitions: `Node`, `Document`, `Document.parse?`, `Document.value?`.
-/

namespace QueryHooks.Yaml

/-- A node of a document. -/
inductive Node where
  /-- The anchored node with a number. -/
  | aliasTo (number : Nat)
  | scalar (tag? : Option String) (style : Style) (text : String)
  | sequence (tag? : Option String) (items : List Node)
  | mapping (tag? : Option String) (entries : List (Node × Node))
  deriving Repr

/-- The tag of a node, written out in full. -/
def Node.tag? : Node → Option String
  | aliasTo _ => none
  | scalar tag? _ _ => tag?
  | sequence tag? _ => tag?
  | mapping tag? _ => tag?

/--
What a node is, as it is written in messages; there is none for a scalar that does not fit its tag.
-/
def Node.found? : Node → Option String
  | aliasTo _ => none
  | scalar tag? style text => (scalarValue? tag? style text).map Value.found
  | sequence .. => some (Value.sequence []).found
  | mapping .. => some (Value.mapping []).found

/-! ## Anchors -/

/-- The anchors of a document up to some place. -/
structure Anchors where
  /-- The number of each name. -/
  numbers : List (String × Nat) := []
  /-- The anchored nodes with their numbers; the first with a number counts. -/
  nodes : List (Nat × Node) := []
  deriving Repr

/-- The number that the next anchor gets. -/
def Anchors.next (anchors : Anchors) : Nat :=
  anchors.numbers.length

/-- Give a name the next number. -/
def Anchors.declare (anchors : Anchors) (name? : Option String) : Anchors :=
  match name? with
  | none => anchors
  | some name =>
    { anchors with numbers := (name, anchors.next) :: anchors.numbers.filter (·.1 != name) }

/--
Record the node of an anchor that was declared after the anchors `before`, unless its number was
given again inside of it.
-/
def Anchors.record (anchors before : Anchors) (name? : Option String) (node : Node) : Anchors :=
  let inner := anchors.nodes.take (anchors.nodes.length - before.nodes.length)
  if name?.isNone || inner.any (·.1 == before.next) then anchors
  else { anchors with nodes := (before.next, node) :: anchors.nodes }

mutual

/-- The node that a written node stands for; an alias needs an anchor in front of it. -/
def nodeOf? (anchors : Anchors) : Syntax → Option (Node × Anchors)
  | .aliasTo name => (anchors.numbers.lookup name).map fun number => (.aliasTo number, anchors)
  | .scalar properties style text =>
    let node := .scalar properties.tag? style text
    some (node, (anchors.declare properties.anchor?).record anchors properties.anchor? node)
  | .sequence properties items => do
    let (items, later) ← nodesOf? (anchors.declare properties.anchor?) items
    let node := .sequence properties.tag? items
    return (node, later.record anchors properties.anchor? node)
  | .mapping properties entries => do
    let (entries, later) ← entriesOf? (anchors.declare properties.anchor?) entries
    let node := .mapping properties.tag? entries
    return (node, later.record anchors properties.anchor? node)

/-- The nodes of the items of a sequence. -/
def nodesOf? (anchors : Anchors) : List Syntax → Option (List Node × Anchors)
  | [] => some ([], anchors)
  | item :: items => do
    let (item, anchors) ← nodeOf? anchors item
    let (items, anchors) ← nodesOf? anchors items
    return (item :: items, anchors)

/-- The nodes of the entries of a mapping. -/
def entriesOf? (anchors : Anchors) : List (Syntax × Syntax) → Option (List (Node × Node) × Anchors)
  | [] => some ([], anchors)
  | (key, value) :: entries => do
    let (key, anchors) ← nodeOf? anchors key
    let (value, anchors) ← nodeOf? anchors value
    let (entries, anchors) ← entriesOf? anchors entries
    return ((key, value) :: entries, anchors)

end

/-! ## Documents -/

/-- The only document of a text. -/
structure Document where
  /-- Its root, unless the text holds nothing but white space and comments. -/
  root? : Option Node
  anchored : List (Nat × Node)
  deriving Repr

namespace Document

/-- Read a text that holds at most one document. -/
def parse? (text : String) : Option Document := do
  let tokens ← tokens? text.toList
  match ← document? tokens with
  | none => return ⟨none, []⟩
  | some root =>
    let (root, anchors) ← nodeOf? {} root
    return ⟨some root, anchors.nodes⟩

/-- The node that a node stands for; only an alias stands for another one. -/
def target (document : Document) : Node → Node
  | .aliasTo number => (document.anchored.lookup number).getD (.scalar none .plain "")
  | node => node

/-! ## Values -/

/-- The number of collections that may be open at a time while values are read. -/
def maxDepth : Nat := 128

mutual

/-- The number of nodes and of ends of collections. -/
def size : Node → Nat
  | .aliasTo _ => 1
  | .scalar .. => 1
  | .sequence _ items => 2 + sizes items
  | .mapping _ entries => 2 + entrySizes entries

/-- The size of the items of a sequence. -/
def sizes : List Node → Nat
  | [] => 0
  | item :: items => size item + sizes items

/-- The size of the entries of a mapping. -/
def entrySizes : List (Node × Node) → Nat
  | [] => 0
  | (key, value) :: entries => size key + size value + entrySizes entries

end

/-- A value with the tag of its node, if that is of the document's own. -/
def withTag (tag? : Option String) (value : Value) : Value :=
  match tag?.filter isOwnTag with
  | some tag => .tagged tag value
  | none => value

/-- Reading values, with the number of aliases that may still be followed. -/
abbrev Reading := StateT Nat Option

/-- Follow an alias, if it is one and not too many were followed. -/
def follow (document : Document) (node : Node) : Reading Node := do
  match node with
  | .aliasTo _ =>
    match ← get with
    | 0 => failure
    | left + 1 => set left
  | _ => pure ()
  return document.target node

/-- The entries of a mapping, where `read` reads a node; no key may be given twice. -/
def readEntries (read : Node → Reading Value) :
    List (Value × Value) → List (Node × Node) → Reading (List (Value × Value))
  | entries, [] => pure entries
  | entries, (key, value) :: later => do
    let key ← read key
    if entries.any (·.1.same key) then failure
    let value ← read value
    readEntries read (entries ++ [(key, value)]) later

/--
The value of a node, where `inner?` reads the nodes in a collection, if one may be open.  There is
none if a scalar does not fit its tag or a key is given twice.
-/
def readNode (document : Document) (inner? : Option (Node → Reading Value)) (node : Node) :
    Reading Value := do
  match ← document.follow node, inner? with
  | .scalar tag? style text, _ =>
    let value ← scalarValue? tag? style text
    return withTag tag? value
  | .sequence tag? items, some inner =>
    let items ← items.mapM inner
    return withTag tag? (.sequence items)
  | .mapping tag? entries, some inner =>
    let entries ← readEntries inner [] entries
    return withTag tag? (.mapping entries)
  | _, _ => failure

/-- The value of a node, where some number of collections may be open. -/
def read (document : Document) : Nat → Node → Reading Value
  | 0 => document.readNode none
  | depth + 1 => document.readNode (some (document.read depth))

/-- The number of aliases that may be followed in a document. -/
def maxAliases (document : Document) : Nat :=
  100 * document.root?.elim 1 size

/-- The value of a node of the document. -/
def valueOf? (document : Document) (node : Node) : Option Value :=
  ((document.read maxDepth node).run document.maxAliases).map Prod.fst

/-- A scalar is read alike in every document. -/
theorem valueOf?_scalar (document : Document) (tag? : Option String) (style : Style)
    (text : String) :
    document.valueOf? (.scalar tag? style text) =
      (scalarValue? tag? style text).map (withTag tag?) := by
  have hfollow : document.follow (.scalar tag? style text) = pure (.scalar tag? style text) := rfl
  rw [valueOf?, maxDepth, read, readNode, hfollow, pure_bind]
  cases hvalue : scalarValue? tag? style text <;> simp only [hvalue] <;> rfl

/-- The value of the document, which is null if it is empty. -/
def value? (document : Document) : Option Value :=
  match document.root? with
  | none => some .null
  | some root => document.valueOf? root

end Document

end QueryHooks.Yaml
