import Mathlib.Data.Set.Function
import QueryHooks.Proofs.Document.TypeText

/-!
# Written types and the types that they stand for

A type says at each level whether `null` is allowed there, and a written type says so by an
exclamation mark or by none.  Written types in which no exclamation mark stands directly behind
another one are the types, one for one.  Further exclamation marks say nothing new.

Main results:

- Definition `TypeSyntax.render`: a written type as a text, each part of the syntax in its place.
- Definition `TypeSyntax.IsProper`: no exclamation mark stands directly behind another one.
- Definition `TypeSyntax.collapsed`: one exclamation mark instead of several.
- Theorem `TypeRef.toSyntax_ofSyntax`: the syntax of the type that a written type stands for.
- Theorem `TypeRef.proper_types_are_the_types`: proper written types, their texts and their types.
-/

namespace QueryHooks

open Document (TypeSyntax)

/-! ## Written types -/

namespace Document.TypeSyntax

/-- The text of a written type. -/
def render : TypeSyntax → String
  | named name => name
  | list inner => "[" ++ inner.render ++ "]"
  | nonNull inner => inner.render ++ "!"

/-- No exclamation mark stands directly behind another one. -/
def IsProper : TypeSyntax → Prop
  | named _ => True
  | list inner => inner.IsProper
  | nonNull inner => (∀ deeper, inner ≠ nonNull deeper) ∧ inner.IsProper

/-- The written type with one exclamation mark wherever several stand directly behind each other. -/
def collapsed : TypeSyntax → TypeSyntax
  | named name => named name
  | list inner => list inner.collapsed
  | nonNull (nonNull inner) => (nonNull inner).collapsed
  | nonNull inner => nonNull inner.collapsed

/-- A single exclamation mark is not collapsed. -/
theorem collapsed_nonNull_of_ne {inner : TypeSyntax} (h : ∀ deeper, inner ≠ nonNull deeper) :
    (nonNull inner).collapsed = nonNull inner.collapsed := by
  rw [collapsed]
  exact h

/-- Where no exclamation mark is one too many, all of them are kept. -/
theorem IsProper.collapsed_eq {type : TypeSyntax} (h : type.IsProper) : type.collapsed = type := by
  induction type with
  | named name => rw [collapsed]
  | list inner ih => rw [collapsed, ih h]
  | nonNull inner ih => rw [collapsed_nonNull_of_ne h.1, ih h.2]

/-- A mark behind a type that has none is not one too many. -/
theorem IsProper.marked {type : TypeSyntax} (h : type.IsProper)
    (hopen : ∀ deeper, type ≠ nonNull deeper)
    (nullable : Bool) : (type.marked nullable).IsProper := by
  cases nullable with
  | true => exact h
  | false => exact ⟨hopen, h⟩

/-- A type is rendered in front of its mark. -/
theorem render_marked (nullable : Bool) (type : TypeSyntax) :
    (type.marked nullable).render = type.render ++ TypeRef.mark nullable := by
  cases nullable with
  | true => simp [marked, TypeRef.mark]
  | false => rfl

end Document.TypeSyntax

/-! ## Types -/

namespace TypeRef

/-- A type is written with at most one exclamation mark at each level. -/
theorem isProper_toSyntax (type : TypeRef) : type.toSyntax.IsProper := by
  induction type with
  | named name nullable =>
    have hname : (TypeSyntax.named name).IsProper := trivial
    rw [toSyntax]
    exact hname.marked (by simp) nullable
  | list inner nullable ih =>
    have hlist : (TypeSyntax.list inner.toSyntax).IsProper := ih
    rw [toSyntax]
    exact hlist.marked (by simp) nullable

/-- The text of a type is that of its syntax. -/
theorem text_eq_render (type : TypeRef) : type.text = type.toSyntax.render := by
  induction type with
  | named name nullable => rw [toSyntax, TypeSyntax.render_marked, TypeSyntax.render, text]
  | list inner nullable ih => rw [toSyntax, TypeSyntax.render_marked, TypeSyntax.render, text, ih]

/--
What a written type stands for is written with one exclamation mark for several, whether or not
there is another one above the written type.
-/
theorem toSyntax_ofSyntaxAt (nullable : Bool) (type : TypeSyntax) :
    (ofSyntaxAt nullable type).toSyntax = (type.marked nullable).collapsed := by
  induction type generalizing nullable with
  | named name => cases nullable <;> rfl
  | list inner ih =>
    -- The mark behind a list says nothing of what is inside of it.
    have hinner : (ofSyntaxAt true inner).toSyntax = inner.collapsed := ih true
    rw [ofSyntaxAt, toSyntax, hinner]
    cases nullable <;> rfl
  | nonNull inner ih =>
    have hinner : (ofSyntaxAt false inner).toSyntax = (TypeSyntax.nonNull inner).collapsed :=
      ih false
    rw [ofSyntaxAt, hinner]
    cases nullable <;> rfl

/--
The type that a written type stands for is written as it is, less the marks that say nothing new.
-/
theorem toSyntax_ofSyntax (type : TypeSyntax) : (ofSyntax type).toSyntax = type.collapsed :=
  toSyntax_ofSyntaxAt true type

/-- Written types stand for the same type if they differ only in marks that say nothing new. -/
theorem ofSyntax_eq_iff {type other : TypeSyntax} :
    ofSyntax type = ofSyntax other ↔ type.collapsed = other.collapsed := by
  rw [← toSyntax_ofSyntax, ← toSyntax_ofSyntax]
  constructor
  · intro h
    rw [h]
  · intro h
    rw [← ofSyntax_toSyntax (ofSyntax type), h, ofSyntax_toSyntax]

/--
If no exclamation mark stands directly behind another one in a written type, the type that it stands
for has the text that was written, and these written types are the types, one for one.  Any other
written type stands for the same type as the one in which several exclamation marks directly behind
each other are one, and written types stand for the same type only if this makes them equal.
-/
theorem proper_types_are_the_types :
    (∀ type : TypeSyntax, type.IsProper → (ofSyntax type).text = type.render) ∧
    Set.BijOn ofSyntax {type | type.IsProper} Set.univ ∧
    (∀ type : TypeSyntax, type.collapsed.IsProper ∧ ofSyntax type.collapsed = ofSyntax type ∧
      (ofSyntax type).text = type.collapsed.render) ∧
    ∀ type other : TypeSyntax, ofSyntax type = ofSyntax other ↔
      type.collapsed = other.collapsed := by
  have hproper (type : TypeSyntax) : type.collapsed.IsProper := by
    rw [← toSyntax_ofSyntax]
    exact isProper_toSyntax _
  have htext (type : TypeSyntax) : (ofSyntax type).text = type.collapsed.render := by
    rw [text_eq_render, toSyntax_ofSyntax]
  have hinverse : Set.InvOn toSyntax ofSyntax {type | type.IsProper} Set.univ := by
    constructor
    · intro type h
      rw [toSyntax_ofSyntax, TypeSyntax.IsProper.collapsed_eq h]
    · intro type _
      exact ofSyntax_toSyntax type
  refine ⟨?_, ?_, ?_, fun type other => ofSyntax_eq_iff⟩
  · intro type h
    rw [htext, h.collapsed_eq]
  · apply hinverse.bijOn
    · exact Set.mapsTo_univ ofSyntax _
    · intro type _
      exact isProper_toSyntax type
  · intro type
    refine ⟨hproper type, ?_, htext type⟩
    rw [ofSyntax_eq_iff, (hproper type).collapsed_eq]

/-- A list of lists, with marks inside and outside and none between. -/
def nestedIds : TypeSyntax :=
  .nonNull (.list (.list (.nonNull (.named "ID"))))

/-- The text of nested lists is what was written, and another exclamation mark changes nothing. -/
theorem text_nestedIds :
    nestedIds.IsProper ∧ (ofSyntax nestedIds).text = "[[ID!]]!" ∧
      ofSyntax (.nonNull nestedIds) = ofSyntax nestedIds := by
  have hproper : nestedIds.IsProper := ⟨by simp, by simp, trivial⟩
  obtain ⟨htext, _, _, hsame⟩ := proper_types_are_the_types
  refine ⟨hproper, ?_, (hsame _ _).2 rfl⟩
  rw [htext nestedIds hproper]
  decide

end TypeRef

end QueryHooks
