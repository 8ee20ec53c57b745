/-!
# Separated texts

A text is split at each separator, so it has one part more than separators; parts may be empty.

Main statements: a text has at least one part (`split_ne_nil`), and parts without separators can be
read back from the text that is made of them (`split_intercalate`).
-/

namespace QueryHooks.Text

/-- The parts of a text in front of, between and behind its separators. -/
def split (separator : Char) : List Char → List (List Char)
  | [] => [[]]
  | c :: rest =>
    if c = separator then [] :: split separator rest
    else
      match split separator rest with
      | [] => [[c]]
      | part :: parts => (c :: part) :: parts

/-- A text has at least one part. -/
theorem split_ne_nil (separator : Char) (text : List Char) : split separator text ≠ [] := by
  fun_cases split separator text <;> simp

/-- A separator ends a part, and what follows it is split by itself. -/
theorem split_append (separator : Char) (text rest : List Char) :
    split separator (text ++ separator :: rest) = split separator text ++ split separator rest := by
  induction text with
  | nil => simp [split]
  | cons c text ih =>
    obtain ⟨part, parts, hparts⟩ := List.exists_cons_of_ne_nil (split_ne_nil separator text)
    by_cases hc : c = separator
    · simp [split, hc, ih]
    · simp [split, hc, ih, hparts]

/-- A text without separators is its only part. -/
theorem split_of_not_mem {separator : Char} {text : List Char} (h : separator ∉ text) :
    split separator text = [text] := by
  induction text with
  | nil => rfl
  | cons c text ih =>
    rw [List.mem_cons, not_or] at h
    rw [split, if_neg (Ne.symm h.1), ih h.2]

/-- Parts without separators can be read back from the text with separators between them. -/
theorem split_intercalate {separator : Char} {parts : List (List Char)} (hne : parts ≠ [])
    (h : ∀ part ∈ parts, separator ∉ part) :
    split separator ([separator].intercalate parts) = parts := by
  induction parts with
  | nil => exact absurd rfl hne
  | cons part parts ih =>
    have hpart := h part List.mem_cons_self
    cases parts with
    | nil => simpa using split_of_not_mem hpart
    | cons next parts =>
      have hlater := ih (by simp) fun other hother => h other (List.mem_cons_of_mem _ hother)
      rw [List.intercalate_cons_cons, List.append_assoc, List.singleton_append, split_append,
        hlater, split_of_not_mem hpart, List.singleton_append]

end QueryHooks.Text
