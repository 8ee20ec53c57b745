import QueryHooks.Config.Basic
import QueryHooks.Proofs.Hook.Rows

/-!
# Names that hooks apply to types

A hook refers to a generic type or function by its name with an angle bracket behind it.  These
names are listed from the text of a hook, where a name is as long as it can be.

Main results:

- Definition `Applies`: a text has a whole name with an angle bracket behind it.
- Definition `appliedNames`: the list of all these names.
- Theorem `Applies.mem_appliedNames`: the list misses none of them.
- Theorems `Hook.appliedNames_standard` and `Hook.appliedNames_infinite`: the names that the hooks
  of an operation apply to types.
- Theorem `applied_of_mem_hooksOf`: the names of helpers are applied only where the settings say so.
-/

namespace QueryHooks

open Config (isNamePart)

/-! ## Names in a text -/

/-- A text has a whole name with an angle bracket directly behind it. -/
def Applies (name : String) (text : String) : Prop :=
  ∃ before after, text.toList = before ++ name.toList ++ '<' :: after ∧
    ∀ c ∈ before.getLast?, isNamePart c = false

/--
The names with an angle bracket behind them, where `word` is the part of a name in front of the
text.
-/
def appliedNames (word : List Char) : List Char → List String
  | [] => []
  | c :: rest =>
    if isNamePart c then appliedNames (word ++ [c]) rest
    else if c = '<' then String.ofList word :: appliedNames [] rest
    else appliedNames [] rest

/-- The characters of a name are put behind those in front of them. -/
theorem appliedNames_append {name : List Char} (h : ∀ c ∈ name, isNamePart c = true)
    (word rest : List Char) :
    appliedNames word (name ++ rest) = appliedNames (word ++ name) rest := by
  induction name generalizing word with
  | nil => simp
  | cons c name ih =>
    obtain ⟨hc, hname⟩ := List.forall_mem_cons.1 h
    rw [List.cons_append, appliedNames, if_pos hc, ih hname, List.append_assoc,
      List.singleton_append]

/-- A name behind a character that belongs to no name is listed. -/
theorem mem_appliedNames_append {name : List Char} (hname : ∀ c ∈ name, isNamePart c = true)
    (word before after : List Char) (hbefore : ∀ c ∈ before.getLast?, isNamePart c = false)
    (hword : before = [] → word = []) :
    String.ofList name ∈ appliedNames word (before ++ (name ++ '<' :: after)) := by
  -- Behind the last character of `before`, no word is open, whatever was open in front of it.
  induction before generalizing word with
  | nil =>
    have hbracket : isNamePart '<' = false := by decide
    rw [hword rfl, List.nil_append, appliedNames_append hname, List.nil_append, appliedNames,
      if_neg (by simp [hbracket]), if_pos rfl]
    exact List.mem_cons_self
  | cons c before ih =>
    rw [List.cons_append, appliedNames]
    by_cases hnil : before = []
    · subst hnil
      have hc : isNamePart c = false := hbefore c (by simp)
      have hlater := ih [] (by simp) fun _ => rfl
      rw [if_neg (by simp [hc])]
      split
      · exact List.mem_cons_of_mem _ hlater
      · exact hlater
    · have hlast : ∀ d ∈ before.getLast?, isNamePart d = false := fun d hd =>
        hbefore d (by rwa [List.getLast?_cons_of_ne_nil hnil])
      have hlater (word : List Char) := ih word hlast fun h => absurd h hnil
      split
      · exact hlater _
      · split
        · exact List.mem_cons_of_mem _ (hlater _)
        · exact hlater _

/-- The list of applied names misses none. -/
theorem Applies.mem_appliedNames {name text : String} (h : Applies name text)
    (hname : ∀ c ∈ name.toList, isNamePart c = true) : name ∈ appliedNames [] text.toList := by
  obtain ⟨before, after, htext, hbefore⟩ := h
  have hmem := mem_appliedNames_append hname [] before after hbefore fun _ => rfl
  rw [String.ofList_toList] at hmem
  rw [htext, List.append_assoc]
  exact hmem

/-! ## Hooks -/

/-- The names of an operation and of its types are made of characters that names have. -/
structure Operation.HasPlainNames (operation : Operation) : Prop where
  name : ∀ c ∈ operation.name.toList, isNamePart c = true
  resultType : ∀ c ∈ operation.resultType.toList, isNamePart c = true
  variablesType : ∀ c ∈ operation.variablesType.toList, isNamePart c = true

/-- Both affixes are made of characters that names have. -/
structure Affixes.ArePlain (affixes : Affixes) : Prop where
  before : ∀ c ∈ affixes.before.toList, isNamePart c = true
  after : ∀ c ∈ affixes.after.toList, isNamePart c = true

theorem Affixes.ArePlain.wrap {affixes : Affixes} (h : affixes.ArePlain) {name : String}
    (hname : ∀ c ∈ name.toList, isNamePart c = true) :
    ∀ c ∈ (affixes.wrap name).toList, isNamePart c = true := by
  rw [Affixes.toList_wrap, List.forall_mem_append, List.forall_mem_append]
  exact ⟨⟨h.before, hname⟩, h.after⟩

/-- PascalCase names have characters of type names only. -/
theorem isNamePart_of_mem_pascal (text : String) :
    ∀ c ∈ Casing.pascalOfWords (Casing.words text.toList), isNamePart c = true := by
  intro c hc
  rw [← Casing.toList_pascal] at hc
  rcases Casing.isAlphanum_or_underscore_of_mem_pascal hc with hc | rfl
  · simp [isNamePart, hc]
  · decide

namespace Hook

/-- The texts of the parameters of a hook and the lines of its body. -/
def texts (hook : Hook) : List String :=
  hook.parameters.map Parameter.text ++ hook.body

/-- The names that the texts of a hook apply to types. -/
def appliedNames (hook : Hook) : List String :=
  hook.texts.flatMap fun text => QueryHooks.appliedNames [] text.toList

/-- A name that is applied to the type of a response, and the name that this type may begin with. -/
def responseNames (settings : Settings) (outer : String) : List String :=
  outer :: if settings.rawResponse then ["SWRRawResponse"] else []

/-- The name that is applied in a generated key. -/
def keyNames (settings : Settings) : List String :=
  if settings.autogenKey then ["genKey"] else []

variable {operation : Operation} {settings : Settings} (h : operation.HasPlainNames)
include h

/-- The type of a response applies at most one name. -/
theorem appliedNames_responseType (settings : Settings) (rest : List Char) :
    QueryHooks.appliedNames [] ((responseType operation settings).toList ++ ',' :: rest) =
      (if settings.rawResponse then ["SWRRawResponse"] else []) ++
        QueryHooks.appliedNames [] rest := by
  have hresult := appliedNames_append h.resultType
  cases hraw : settings.rawResponse with
  | false => simp [responseType, hraw, hresult, QueryHooks.appliedNames, isNamePart]
  | true => simp [responseType, hraw, hresult, QueryHooks.appliedNames, isNamePart]

/-- A generated key applies one name. -/
theorem appliedNames_generatedKey (rest : List Char) :
    QueryHooks.appliedNames [] ((generatedKey operation).toList ++ rest) =
      "genKey" :: QueryHooks.appliedNames [] rest := by
  have hvariables := appliedNames_append h.variablesType
  have hpascal := appliedNames_append (isNamePart_of_mem_pascal operation.name)
  simp [generatedKey, hvariables, hpascal, QueryHooks.appliedNames, isNamePart]

/-- The parameter for the variables applies no name. -/
theorem appliedNames_variablesParameter {type : String}
    (htype : type = operation.variablesType ∨ type = operation.variablesType ++ " | null") :
    QueryHooks.appliedNames [] (variablesParameter operation type).text.toList = [] := by
  have hvariables := appliedNames_append h.variablesType
  have hend := appliedNames_append h.variablesType [] []
  rw [List.append_nil] at hend
  rcases htype with rfl | rfl <;> cases homit : operation.omittable <;>
    simp [variablesParameter, Parameter.text, homit, hvariables, hend, QueryHooks.appliedNames,
      isNamePart]

omit h in
/-- The text of a parameter that is required. -/
theorem toList_text_required (name type : String) :
    (Parameter.required name type).text.toList = name.toList ++ ':' :: ' ' :: type.toList := by
  simp [Parameter.required, Parameter.text]

omit h in
/-- The text of a parameter that may be left out. -/
theorem toList_text_optionally (name type : String) :
    (Parameter.optionally name type).text.toList = name.toList ++
      '?' :: ':' :: ' ' :: type.toList := by
  simp [Parameter.optionally, Parameter.text]

omit h in
/-- So has the name of the key loader between plain affixes. -/
theorem isNamePart_of_mem_wrap_keyLoader (haffixes : settings.affixes.ArePlain) :
    ∀ c ∈ (settings.affixes.wrap keyLoader).toList, isNamePart c = true :=
  haffixes.wrap (by simp [keyLoader, isNamePart])

/-- The names that the standard hook applies, in order. -/
theorem appliedNames_standard :
    (standard operation settings).appliedNames =
      responseNames settings "SWRConfigInterface" ++ responseNames settings "useSWR" ++
        keyNames settings := by
  have hname := appliedNames_append h.name
  have hresponse := appliedNames_responseType h settings
  have hkey := appliedNames_generatedKey h
  have hvariables := appliedNames_variablesParameter h (.inr rfl)
  cases hauto : settings.autogenKey with
  | false =>
    simp [appliedNames, texts, standard, hauto, hvariables, toList_text_required,
      toList_text_optionally, hresponse, hname, QueryHooks.appliedNames, isNamePart, responseNames,
      keyNames]
  | true =>
    simp [appliedNames, texts, standard, hauto, hvariables, toList_text_optionally, hresponse, hkey,
      hname, QueryHooks.appliedNames, isNamePart, responseNames, keyNames]

/-- The names that the infinite hook applies, in order. -/
theorem appliedNames_infinite (haffixes : settings.affixes.ArePlain) :
    (infinite operation settings).appliedNames =
      responseNames settings (settings.affixes.wrap keyLoader) ++
        responseNames settings "SWRInfiniteConfiguration" ++
          responseNames settings "useSWRInfinite" ++
        responseNames settings "generateGetKey" ++ keyNames settings ++
        responseNames settings "generateFetcher" := by
  have hname := appliedNames_append h.name
  have hresponse := appliedNames_responseType h settings
  have hkey := appliedNames_generatedKey h
  have hvariables := appliedNames_variablesParameter h (.inl rfl)
  have htypes := appliedNames_append h.variablesType
  have happlied := appliedNames_append (isNamePart_of_mem_wrap_keyLoader haffixes)
  cases hauto : settings.autogenKey with
  | false =>
    simp [appliedNames, texts, infinite, hauto, hvariables, toList_text_required,
      toList_text_optionally, hresponse, hname, htypes, happlied, QueryHooks.appliedNames,
      isNamePart, responseNames, keyNames, -Affixes.toList_wrap]
  | true =>
    simp [appliedNames, texts, infinite, hauto, hvariables, toList_text_required,
      toList_text_optionally, hresponse, hkey, hname, htypes, happlied, QueryHooks.appliedNames,
      isNamePart, responseNames, keyNames, -Affixes.toList_wrap]

omit h in
/-- The name of the type of a key loader is longer than that of any other helper. -/
theorem ne_wrap_keyLoader (affixes : Affixes) (name : String) (hlength : name.length < 20) :
    name ≠ affixes.wrap keyLoader := by
  rintro rfl
  rw [← String.length_toList, Affixes.toList_wrap, List.length_append,
    List.length_append] at hlength
  have hloader : keyLoader.toList.length = 20 := by decide
  omega

end Hook

/-- The names of helpers are applied only where the settings say so. -/
theorem applied_of_mem_hooksOf {operation : Operation} {settings : Hook.Settings}
    (h : operation.HasPlainNames) (haffixes : settings.affixes.ArePlain) {hook : Hook}
    (hhook : hook ∈ hooksOf operation settings) :
    ("SWRRawResponse" ∈ hook.appliedNames → settings.rawResponse = true) ∧
      ("genKey" ∈ hook.appliedNames → settings.autogenKey = true) := by
  have hraw := Hook.ne_wrap_keyLoader settings.affixes "SWRRawResponse" (by decide)
  have hkey := Hook.ne_wrap_keyLoader settings.affixes "genKey" (by decide)
  rw [hooksOf, List.mem_cons, List.mem_ite_nil_right, List.mem_singleton] at hhook
  rcases hhook with rfl | ⟨_, rfl⟩
  · rw [Hook.appliedNames_standard h]
    simp [Hook.responseNames, Hook.keyNames]
  · rw [Hook.appliedNames_infinite h haffixes]
    simp [Hook.responseNames, Hook.keyNames, hraw, hkey]

end QueryHooks
