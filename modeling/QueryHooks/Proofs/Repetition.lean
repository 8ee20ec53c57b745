import Mathlib.Data.List.Nodup
import Mathlib.Data.Nat.Find

/-!
# First repetitions

Several loops take entries in order and stop at the first whose key is taken already.  This module
says where that is: at the least index whose key occurs before it, together with the one place where
it does.

Main results:

- Theorem `FirstRepetition.nodup_take`: up to the first repetition the keys are distinct, so a loop
  reaches it.
- Theorem `exists_firstRepetition`: there is a first repetition if the keys are not all distinct.
-/

namespace QueryHooks

variable {α : Type}

/-- A list around one of its entries. -/
theorem eq_take_append_cons_drop {entries : List α} {index : Nat} {entry : α}
    (h : entries[index]? = some entry) :
    entries = entries.take index ++ entry :: entries.drop (index + 1) := by
  obtain ⟨hlt, hget⟩ := List.getElem?_eq_some_iff.1 h
  rw [← hget, ← List.drop_eq_getElem_cons hlt, List.take_append_drop]

/--
At `second` a list holds, for the first time, a key that it holds before.  The key occurs before at
`first` and nowhere else.
-/
structure FirstRepetition (keys : List α) (first second : Nat) : Prop where
  first_lt : first < second
  second_lt : second < keys.length
  same : keys[first]? = keys[second]?
  /-- No key before the second place is a repetition. -/
  fresh : ∀ later < second, ∀ earlier < later, keys[earlier]? ≠ keys[later]?
  /-- The second key has a single earlier occurrence. -/
  only : ∀ earlier < second, keys[earlier]? = keys[second]? → earlier = first

namespace FirstRepetition

variable {keys : List α} {first second : Nat}

/-- Before the first repetition the keys are distinct. -/
theorem nodup_take (h : FirstRepetition keys first second) : (keys.take second).Nodup := by
  rw [List.nodup_iff_getElem?_ne_getElem?]
  intro earlier later hlt hlater
  have hsecond : later < second := by
    rw [List.length_take] at hlater
    omega
  rw [List.getElem?_take_of_lt hsecond, List.getElem?_take_of_lt (Nat.lt_trans hlt hsecond)]
  exact h.fresh later hsecond earlier hlt

end FirstRepetition

/-- The key at an index of a list occurs before that index too. -/
private def RepeatsAt (keys : List α) (index : Nat) : Prop :=
  index < keys.length ∧ ∃ earlier < index, keys[earlier]? = keys[index]?

/-- Keys that are not distinct have a first repetition. -/
theorem exists_firstRepetition {keys : List α} (h : ¬keys.Nodup) :
    ∃ first second, FirstRepetition keys first second := by
  classical
  have hexists : ∃ index, RepeatsAt keys index := by
    rw [List.nodup_iff_getElem?_ne_getElem?] at h
    push Not at h
    obtain ⟨earlier, index, hlt, hlength, hsame⟩ := h
    exact ⟨index, hlength, earlier, hlt, hsame⟩
  let second := Nat.find hexists
  obtain ⟨hlength, first, hlt, hsame⟩ : RepeatsAt keys second := Nat.find_spec hexists
  have hfresh : ∀ later < second, ∀ earlier < later, keys[earlier]? ≠ keys[later]? := by
    intro later hlater earlier hearlier heq
    exact Nat.find_min hexists hlater ⟨Nat.lt_trans hlater hlength, earlier, hearlier, heq⟩
  refine ⟨first, second, hlt, hlength, hsame, hfresh, ?_⟩
  intro earlier hearlier heq
  rcases Nat.lt_trichotomy earlier first with hbefore | rfl | hbehind
  · exact absurd (heq.trans hsame.symm) (hfresh first hlt earlier hbefore)
  · rfl
  · exact absurd (hsame.trans heq.symm) (hfresh earlier hearlier first hbehind)

end QueryHooks
