import QueryHooks.Hook.Generation
import QueryHooks.Proofs.Casing.Image

/-!
# Identifiers in hooks

The name of an operation comes into the text of its hooks in PascalCase: behind `use` in their
names, and between single quotes in the keys that are made from the variables.  PascalCase is made
of letters, digits and underscores, so the first are identifiers and the quotes end where they
should.

Main results:

- Theorem `exists_name_eq_of_mem_hooksOf`: the names of hooks are `use` and characters of
  identifiers.
- Theorem `exists_infix_of_mem_hooksOf`: where a hook makes its key from the variables.
- Theorem `pascal_image_and_hooks`: which texts are in PascalCase, and what follows for hooks.
-/

namespace QueryHooks

open Casing (lower pascal pascalTexts)

/-- The ending of the name of a hook is made of letters. -/
theorem Hook.Variant.isAlphanum_of_mem_ending (variant : Hook.Variant) :
    ∀ c ∈ variant.ending.toList, c.isAlphanum = true := by
  cases variant <;> simp [ending]

/-- A hook of an operation is named after it. -/
theorem name_eq_of_mem_hooksOf {operation : Operation} {settings : Hook.Settings} {hook : Hook}
    (h : hook ∈ hooksOf operation settings) : hook.name = hookName operation.name hook.variant := by
  rw [hooksOf, List.mem_cons] at h
  rcases h with rfl | h
  · rfl
  · split at h
    · obtain rfl := List.mem_singleton.1 h
      rfl
    · exact absurd h List.not_mem_nil

/-- The names of hooks are `use` and letters, digits and underscores. -/
theorem exists_name_eq_of_mem_hooksOf {operation : Operation} {settings : Hook.Settings}
    {hook : Hook} (h : hook ∈ hooksOf operation settings) :
    ∃ rest, hook.name = "use" ++ rest ∧ ∀ c ∈ rest.toList, c.isAlphanum = true ∨ c = '_' := by
  refine ⟨pascal operation.name ++ hook.variant.ending, ?_, ?_⟩
  · rw [name_eq_of_mem_hooksOf h, hookName, String.append_assoc]
  · rw [String.toList_append, List.forall_mem_append]
    exact ⟨fun c hc => Casing.isAlphanum_or_underscore_of_mem_pascal hc,
      fun c hc => .inl (hook.variant.isAlphanum_of_mem_ending c hc)⟩

/-- Where keys are made from the variables, each hook makes one in one of its lines. -/
theorem exists_infix_of_mem_hooksOf {operation : Operation} {settings : Hook.Settings} {hook : Hook}
    (hkey : settings.autogenKey = true) (h : hook ∈ hooksOf operation settings) :
    ∃ line ∈ hook.body, (Hook.generatedKey operation).toList <:+: line.toList := by
  rw [hooksOf, List.mem_cons] at h
  rcases h with rfl | h
  · refine ⟨_, List.mem_singleton_self _,
      ("  return useSWR<" ++ Hook.responseType operation settings ++ ", ClientError>(" ++
        "variables && ").toList,
          (", () => sdk." ++ operation.name ++ "(variables!), config);").toList, ?_⟩
    simp only [hkey, if_true, String.toList_append, List.append_assoc]
  · split at h
    · obtain rfl := List.mem_singleton.1 h
      refine ⟨_, List.mem_cons_of_mem _ List.mem_cons_self,
        ("    utilsForInfinite.generateGetKey" ++ "<" ++ Hook.responseType operation settings ++
          ", " ++ operation.variablesType ++ ">" ++ "(").toList, ", getKey),".toList, ?_⟩
      simp only [hkey, if_true, String.toList_append, List.append_assoc]
    · exact absurd h List.not_mem_nil

/--
The texts in PascalCase are exactly those of the language `pascalTexts`.  Without underscores and in
lower case, PascalCase has the letters and digits of the text, in order.  So the name of every hook
is `use` and letters, digits and underscores, and a key that is made from the variables has no quote
inside its quotes.
-/
theorem pascal_image_and_hooks :
    (∀ text : String, (∃ source, pascal source = text) ↔ text.toList ∈ pascalTexts) ∧
    (∀ source : String,
      lower ((pascal source).toList.filter (· != '_')) =
        lower (source.toList.filter Char.isAlphanum)) ∧
    ∀ operation settings, ∀ hook ∈ hooksOf operation settings,
      (∃ rest, hook.name = "use" ++ rest ∧ ∀ c ∈ rest.toList, c.isAlphanum = true ∨ c = '_') ∧
      (settings.autogenKey = true →
        ∃ literal, '\'' ∉ literal.toList ∧ '"' ∉ literal.toList ∧ literal = pascal operation.name ∧
          ∃ line ∈ hook.body,
            ("genKey<" ++ operation.variablesType ++ ">('" ++ literal ++ "', variables)").toList
              <:+: line.toList) := by
  refine ⟨fun text => Casing.exists_pascal_eq_iff, Casing.lower_filter_pascal, ?_⟩
  intro operation settings hook hhook
  refine ⟨exists_name_eq_of_mem_hooksOf hhook, ?_⟩
  intro hkey
  have hquote {quote : Char} (hquote : ¬(quote.isAlphanum = true ∨ quote = '_')) :
      quote ∉ (pascal operation.name).toList := fun hmem =>
    hquote (Casing.isAlphanum_or_underscore_of_mem_pascal hmem)
  exact ⟨_, hquote (by decide), hquote (by decide), rfl, exists_infix_of_mem_hooksOf hkey hhook⟩

/-- A query with a quote in its name, which a loaded one cannot have. -/
def quotedQuery : Operation where
  kind := .query
  name := "item's_2"
  resultType := "R"
  variablesType := "V"
  declared := []
  distinct := List.nodup_nil

/-- The quote is not in the name and the key of the infinite hook. -/
theorem key_of_quotedQuery :
    let settings : Hook.Settings := { autogenKey := true, infinite := true }
    let hook := Hook.infinite quotedQuery settings
    (∃ source, pascal source = "ItemS_2") ∧
    lower ((pascal "item's_2").toList.filter (· != '_')) = "items2".toList ∧
    hook ∈ hooksOf quotedQuery settings ∧ settings.autogenKey = true ∧
      (∃ rest, hook.name = "use" ++ rest ∧ ∀ c ∈ rest.toList, c.isAlphanum = true ∨ c = '_') ∧
      '\'' ∉ "ItemS_2".toList ∧ '"' ∉ "ItemS_2".toList ∧
      ∃ line ∈ hook.body, "genKey<V>('ItemS_2', variables)".toList <:+: line.toList := by
  intro settings hook
  obtain ⟨himage, hletters, hhooks⟩ := pascal_image_and_hooks
  have hpascal : pascal "item's_2" = "ItemS_2" := by cbv
  have hmem : hook ∈ hooksOf quotedQuery settings := List.mem_cons_of_mem _ List.mem_cons_self
  have htext : "ItemS_2".toList ∈ pascalTexts := (himage _).1 ⟨"item's_2", hpascal⟩
  obtain ⟨hname, hkey⟩ := hhooks quotedQuery settings hook hmem
  obtain ⟨_, hsingle, hdouble, rfl, hline⟩ := hkey rfl
  refine ⟨(himage _).2 htext, (hletters _).trans (by decide), hmem, rfl, hname, ?_⟩
  have hliteral : pascal quotedQuery.name = "ItemS_2" := hpascal
  rw [hliteral] at hsingle hdouble hline
  exact ⟨hsingle, hdouble, hline⟩

end QueryHooks
