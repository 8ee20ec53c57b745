import Mathlib.Computability.Language

/-!
# Languages

Languages of one letter, of letters side by side and of any texts, and what it means that two
languages over different letters are the same up to a change of letters.

Main results:

- Definition `oneOf`: the texts of one letter of a class.
- Theorems `cons_mem_oneOf_mul` and `cons_mem_top_mul`: how a text begins that is in a product.
- Definition `SameUnder`: a language has the texts that are in another one after a change of
  letters.
- Theorem `SameUnder.mul`: products of languages that are the same under a change of letters.
-/

namespace QueryHooks.Text

open scoped Computability

variable {α β : Type*}

/-! ## Letters of a class -/

/-- The texts of one letter of a class. -/
def oneOf (holds : α → Bool) : Language α :=
  {text | ∃ c, holds c = true ∧ text = [c]}

/-- The texts of one letter. -/
theorem mem_oneOf {holds : α → Bool} {text : List α} :
    text ∈ oneOf holds ↔ ∃ c, holds c = true ∧ text = [c] :=
  Iff.rfl

/-- The language of one text. -/
theorem mem_singleton {text word : List α} : text ∈ ({word} : Language α) ↔ text = word :=
  Iff.rfl

/-- The language of all texts. -/
theorem mem_top (text : List α) : text ∈ (⊤ : Language α) :=
  trivial

/-- Letters of a class side by side are any letters of the class. -/
theorem mem_kstar_oneOf {holds : α → Bool} {text : List α} :
    text ∈ (oneOf holds)∗ ↔ ∀ c ∈ text, holds c = true := by
  rw [Language.mem_kstar]
  constructor
  · rintro ⟨parts, rfl, hparts⟩ c hc
    obtain ⟨part, hpart, hmem⟩ := List.mem_flatten.1 hc
    obtain ⟨d, hd, rfl⟩ := mem_oneOf.1 (hparts part hpart)
    rwa [List.mem_singleton.1 hmem]
  · intro h
    refine ⟨text.map ([·]), by rw [← List.flatMap_def, List.flatMap_singleton'], ?_⟩
    rw [List.forall_mem_map]
    exact fun c hc => ⟨c, h c hc, rfl⟩

/-! ## Products -/

section Products

variable {holds : α → Bool} {language : Language α} {c : α} {text : List α}

/-- The empty text does not begin with a letter. -/
theorem nil_notMem_oneOf_mul : [] ∉ oneOf holds * language := by
  rw [Language.mem_mul]
  rintro ⟨_, ⟨c, _, rfl⟩, rest, _, h⟩
  exact absurd h (by simp)

/-- A text begins with a certain letter if its first one is so. -/
theorem cons_mem_oneOf_mul :
    c :: text ∈ oneOf holds * language ↔ holds c = true ∧ text ∈ language := by
  rw [Language.mem_mul]
  constructor
  · rintro ⟨_, ⟨d, hd, rfl⟩, rest, hrest, h⟩
    obtain ⟨rfl, rfl⟩ : d = c ∧ rest = text := by simpa using h
    exact ⟨hd, hrest⟩
  · rintro ⟨hc, htext⟩
    exact ⟨[c], ⟨c, hc, rfl⟩, text, htext, rfl⟩

/-- The empty text ends in itself only. -/
theorem nil_mem_top_mul : [] ∈ ⊤ * language ↔ [] ∈ language := by
  rw [Language.mem_mul]
  constructor
  · rintro ⟨front, _, rest, hrest, h⟩
    rwa [(List.append_eq_nil_iff.1 h).2] at hrest
  · intro h
    exact ⟨[], mem_top _, [], h, rfl⟩

/--
A text ends in one of a language if it is one, or if what follows its first letter ends in one.
-/
theorem cons_mem_top_mul :
    c :: text ∈ ⊤ * language ↔ c :: text ∈ language ∨ text ∈ ⊤ * language := by
  rw [Language.mem_mul, Language.mem_mul]
  constructor
  · rintro ⟨front, _, rest, hrest, h⟩
    cases front with
    | nil =>
      obtain rfl : rest = c :: text := h
      exact .inl hrest
    | cons d front => exact .inr ⟨front, mem_top _, rest, hrest, (List.cons.inj h).2⟩
  · rintro (h | ⟨front, _, rest, hrest, rfl⟩)
    · exact ⟨[], mem_top _, _, h, rfl⟩
    · exact ⟨c :: front, mem_top _, rest, hrest, rfl⟩

/-- One text behind another is a single text. -/
theorem singleton_mul_singleton (word next : List α) :
    ({word} : Language α) * {next} = {word ++ next} :=
  Set.image2_singleton

end Products

/-! ## Change of letters -/

/--
A language has the same texts of certain letters as another one has after a change of letters.
-/
def SameUnder (change : α → β) (holds : α → Prop) (language : Language α) (changed : Language β) :
    Prop :=
  ∀ text, (∀ c ∈ text, holds c) → (text.map change ∈ changed ↔ text ∈ language)

namespace SameUnder

variable {change : α → β} {holds : α → Prop}
variable {first second : Language α} {firstChanged secondChanged : Language β}

theorem zero : SameUnder change holds 0 0 :=
  fun _ _ => Iff.rfl

theorem one : SameUnder change holds 1 1 := by
  intro text _
  rw [Language.mem_one, Language.mem_one, List.map_eq_nil_iff]

theorem top : SameUnder change holds ⊤ ⊤ :=
  fun text _ => iff_of_true (mem_top _) (mem_top text)

/-- A change of letters goes through unions. -/
theorem add (h : SameUnder change holds first firstChanged)
    (h' : SameUnder change holds second secondChanged) :
    SameUnder change holds (first + second) (firstChanged + secondChanged) := by
  intro text htext
  rw [Language.mem_add, Language.mem_add, h text htext, h' text htext]

/-- A change of letters goes through products: each text is cut where its change is. -/
theorem mul (h : SameUnder change holds first firstChanged)
    (h' : SameUnder change holds second secondChanged) :
    SameUnder change holds (first * second) (firstChanged * secondChanged) := by
  intro text htext
  rw [Language.mem_mul, Language.mem_mul]
  constructor
  · rintro ⟨_, hfront, _, hback, hsplit⟩
    obtain ⟨front, back, rfl, rfl, rfl⟩ := List.append_eq_map_iff.1 hsplit
    rw [List.forall_mem_append] at htext
    exact ⟨front, (h front htext.1).1 hfront, back, (h' back htext.2).1 hback, rfl⟩
  · rintro ⟨front, hfront, back, hback, rfl⟩
    rw [List.forall_mem_append] at htext
    exact ⟨front.map change, (h front htext.1).2 hfront, back.map change, (h' back htext.2).2 hback,
      List.map_append.symm⟩

/-- Languages of one letter are the same if their classes are. -/
theorem oneOf {inClass : α → Prop} {inChanged : β → Bool}
    (h : ∀ c, holds c → (inChanged (change c) = true ↔ inClass c)) :
    SameUnder change holds {text | ∃ c, inClass c ∧ text = [c]} (Text.oneOf inChanged) := by
  intro text htext
  rw [mem_oneOf]
  constructor
  · rintro ⟨d, hd, hchange⟩
    obtain ⟨c, rfl, rfl⟩ := List.map_eq_singleton_iff.1 hchange
    exact ⟨c, (h c (htext c (List.mem_singleton_self c))).1 hd, rfl⟩
  · rintro ⟨c, hc, rfl⟩
    exact ⟨change c, (h c (htext c (List.mem_singleton_self c))).2 hc, rfl⟩

end SameUnder

end QueryHooks.Text
