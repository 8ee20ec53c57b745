import QueryHooks.Document.TypeReader
import QueryHooks.Proofs.Document.Nesting

/-!
# Types as they are written

A type is written as a text, its text is scanned into its tokens, these are read as its syntax, and
the syntax stands for the type again.

Main results:

- Theorem `TypeRef.ofSyntax_toSyntax`: the syntax of a type stands for that type.
- Theorem `TypeReader.run_tokens`: the tokens of a type are read as its syntax.
- Theorem `TypeRef.writes_text`: the text of a type is scanned into its tokens.
- Theorem `TypeRef.nestsWithin_tokens`: the tokens of a type nest as deep as its lists.
-/

namespace QueryHooks

open Document (IsName NestsWithin StopsName Token TypeReader TypeSyntax Writes stopsName_cons
  stopsName_nil)

/-! ## Syntax -/

/-- A written type with an exclamation mark behind it unless it may be `null`. -/
def Document.TypeSyntax.marked (nullable : Bool) (type : TypeSyntax) : TypeSyntax :=
  if nullable then type else .nonNull type

namespace TypeRef

/-- The number of lists around the innermost type. -/
def levels : TypeRef → Nat
  | named _ _ => 0
  | list inner _ => inner.levels + 1

/-- The syntax in which a type is written. -/
def toSyntax : TypeRef → TypeSyntax
  | named name nullable => .marked nullable (.named name)
  | list inner nullable => .marked nullable (.list inner.toSyntax)

/-- A type that was marked is kept as it was, with the mark as its flag. -/
theorem ofSyntax_marked (nullable : Bool) (type : TypeSyntax) :
    ofSyntax (type.marked nullable) = ofSyntaxAt nullable type := by
  cases nullable <;> rfl

/-- The syntax of a type stands for that type. -/
theorem ofSyntax_toSyntax (type : TypeRef) : ofSyntax type.toSyntax = type := by
  induction type with
  | named name nullable => rw [toSyntax, ofSyntax_marked, ofSyntaxAt]
  | list inner nullable ih =>
    rw [toSyntax, ofSyntax_marked, ofSyntaxAt]
    rw [ofSyntax] at ih
    rw [ih]

/-! ## Tokens -/

/-- The tokens of a mark behind a type. -/
def markTokens (nullable : Bool) : List Token :=
  if nullable then [] else [.punctuator '!']

/-- The tokens of a type. -/
def tokens : TypeRef → List Token
  | named name nullable => .name name.toList :: markTokens nullable
  | list inner nullable =>
    (.punctuator '[' :: inner.tokens ++ [.punctuator ']']) ++ markTokens nullable

/-- An exclamation mark opens no bracket. -/
theorem nestsWithin_markTokens (depth : Nat) (nullable : Bool) :
    NestsWithin depth (markTokens nullable) := by
  cases nullable with
  | true => exact .nil
  | false => exact NestsWithin.nil.cons_punctuator (by decide) (by decide)

/-- The tokens of a type nest as deep as its lists. -/
theorem nestsWithin_tokens (type : TypeRef) : NestsWithin type.levels type.tokens := by
  induction type with
  | named name nullable => exact (nestsWithin_markTokens _ nullable).cons_name
  | list inner nullable ih =>
    exact (ih.bracket (by decide) (by decide)).append (nestsWithin_markTokens _ nullable)

end TypeRef

/-! ## Reading -/

namespace Document.TypeReader

/-- Take tokens in order, as long as the type can go on with them. -/
def run (reader : TypeReader) (tokens : List Token) : Option TypeReader :=
  tokens.foldlM step reader

/-- A run over a type takes its tokens one list behind the other. -/
theorem run_append (reader : TypeReader) (tokens later : List Token) :
    reader.run (tokens ++ later) = reader.run tokens >>= (·.run later) := by
  simp [run]

/-- The mark behind a type is taken, and at most one of it. -/
theorem run_markTokens (depth : Nat) (type : TypeSyntax) (nullable : Bool) :
    (closing depth type false).run (TypeRef.markTokens nullable) =
      some (closing depth (type.marked nullable) !nullable) := by
  cases nullable <;> rfl

/-- The tokens of a type are read as its syntax, however many lists are open around it. -/
theorem run_tokens (depth : Nat) (type : TypeRef) :
    (opening depth).run type.tokens = some (closing depth type.toSyntax !type.nullable) := by
  induction type generalizing depth with
  | named name nullable =>
    have hname : (opening depth).run [.name name.toList] =
        some (closing depth (.named name) false) := by
      simp [run, step]
    rw [TypeRef.tokens, ← List.singleton_append, run_append, hname]
    exact run_markTokens depth _ nullable
  | list inner nullable ih =>
    have hclose (marked : Bool) :
      (closing (depth + 1) inner.toSyntax marked).run [.punctuator ']'] =
        some (closing depth (.list inner.toSyntax) false) := by
      cases marked <;> rfl
    have hlist : (opening depth).run (.punctuator '[' :: inner.tokens ++ [.punctuator ']']) =
        some (closing depth (.list inner.toSyntax) false) := by
      change (opening (depth + 1)).run (inner.tokens ++ [.punctuator ']']) = _
      rw [run_append, ih (depth + 1)]
      exact hclose _
    rw [TypeRef.tokens, run_append, hlist]
    exact run_markTokens depth _ nullable

end Document.TypeReader

/-! ## Text -/

namespace TypeRef

/-- The mark of a type writes its tokens. -/
theorem writes_mark (nullable : Bool) : Writes (mark nullable).toList (markTokens nullable) := by
  cases nullable with
  | true => exact .nil
  | false => exact Writes.nil.cons_punctuator rfl

/-- The mark of a type stops a name. -/
theorem stopsName_mark (nullable : Bool) : StopsName (mark nullable).toList := by
  cases nullable with
  | true => exact stopsName_nil
  | false => exact stopsName_cons rfl

/-- The text of a type is scanned into the tokens of the type. -/
theorem writes_text (type : TypeRef) (hname : IsName type.innermost.toList) :
    Writes type.text.toList type.tokens := by
  induction type with
  | named name nullable =>
    have hinnermost : Writes name.toList [.name name.toList] := Writes.name hname
    rw [text, String.toList_append]
    exact hinnermost.append (writes_mark nullable) (stopsName_mark nullable)
  | list inner nullable ih =>
    have hclose : Writes (']' :: (mark nullable).toList)
        (.punctuator ']' :: markTokens nullable) :=
      (writes_mark nullable).cons_punctuator rfl
    have hinner := (ih hname).append hclose (stopsName_cons rfl)
    have hlist : Writes ('[' :: (inner.text.toList ++ ']' :: (mark nullable).toList))
        (.punctuator '[' :: (inner.tokens ++ .punctuator ']' :: markTokens nullable)) :=
      hinner.cons_punctuator rfl
    simpa [text, tokens] using hlist

end TypeRef

end QueryHooks
