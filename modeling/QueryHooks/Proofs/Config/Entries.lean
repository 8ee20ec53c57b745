import QueryHooks.Proofs.Config.Settings

/-!
# Entries of a configuration

Options are read from the entries of a mapping one after the other.  What comes out does not depend
on their order, nor on which of the names of an option its key is, nor on the entries that are for
no option.  It only depends on the value that is given for each option, and no option may be given
twice.

Main results:

- Theorem `OptionName.ofKey?_eq_some_iff`: the keys of each option.
- Theorem `Options.toOption_decodeSetting`: whether a value can be read does not depend on its
  place.
- Definition `Options.HoldsEntries`: options hold the values that some entries give.
- Theorem `Options.ofEntries_eq_ok_iff`: entries give the options that hold their values.
- Theorem `Options.entries_count_by_option_and_value`: what makes no difference, and what is
  rejected.
-/

namespace QueryHooks

open Yaml (Node)

/-! ## Keys -/

namespace OptionName

/-- The second name of an option. -/
def alias? : OptionName → Option String
  | infiniteQueries => some "useSWRInfinite"
  | autogenKey => some "autogenSWRKey"
  | rawResponse => some "rawRequest"
  | _ => none

/-- The keys that mean an option: its name, and its second name if it has one. -/
def keys (option : OptionName) : List String :=
  option.text :: option.alias?.toList

/-- A key means the option that it is a name of. -/
theorem ofKey?_eq_some_iff {key : String} {option : OptionName} :
    ofKey? key = some option ↔ key ∈ option.keys := by
  constructor
  · intro h
    unfold ofKey? at h
    split at h <;> cases h <;> decide
  · cases option <;> simp only [keys, text, alias?, Option.toList, List.mem_cons, List.not_mem_nil,
      or_false] <;> rintro (rfl | rfl) <;> rfl

end OptionName

namespace Options

variable {document : Yaml.Document} {entry other : Node × Node}
  {entries others : List (Node × Node)}
variable {option : OptionName} {options : Options} {seen : List OptionName}
  {settings : List Setting}

/-- The key of an entry is a scalar with some text. -/
def HasKey (document : Yaml.Document) (entry : Node × Node) (key : String) : Prop :=
  ∃ tag? style, document.target entry.1 = .scalar tag? style key

/-- The key of an entry is one of the names of an option. -/
def IsFor (document : Yaml.Document) (entry : Node × Node) (option : OptionName) : Prop :=
  ∃ key ∈ option.keys, HasKey document entry key

/-- The keys that can be read are those that an entry has. -/
theorem decodeKey_eq_ok_iff {key : String} :
    decodeKey (document.target entry.1) = .ok key ↔ HasKey document entry key := by
  rw [HasKey]
  cases document.target entry.1 <;> simp [decodeKey]

/-- The option that an entry is for. -/
def optionOf? (document : Yaml.Document) (entry : Node × Node) : Option OptionName :=
  (decodeKey (document.target entry.1)).toOption.bind OptionName.ofKey?

/-- An entry is for the option that its key names. -/
theorem optionOf?_of_hasKey {key : String} (h : HasKey document entry key) :
    optionOf? document entry = OptionName.ofKey? key := by
  rw [optionOf?, decodeKey_eq_ok_iff.2 h]
  rfl

/-- The option of an entry is the one that the entry is for. -/
theorem optionOf?_eq_some_iff :
    optionOf? document entry = some option ↔ IsFor document entry option := by
  constructor
  · intro h
    cases hkey : decodeKey (document.target entry.1) with
    | error error => simp [optionOf?, hkey, Except.toOption] at h
    | ok key =>
      have hkey := decodeKey_eq_ok_iff.1 hkey
      rw [optionOf?_of_hasKey hkey] at h
      exact ⟨key, OptionName.ofKey?_eq_some_iff.1 h, hkey⟩
  · rintro ⟨key, hmem, hkey⟩
    rw [optionOf?_of_hasKey hkey, OptionName.ofKey?_eq_some_iff.2 hmem]

/-- The options that some entries are for, in order. -/
def given (document : Yaml.Document) (entries : List (Node × Node)) : List OptionName :=
  entries.filterMap (optionOf? document)

/-- An option is given if some entry is for it. -/
theorem mem_given_iff :
    option ∈ given document entries ↔ ∃ entry ∈ entries, IsFor document entry option := by
  simp [given, List.mem_filterMap, optionOf?_eq_some_iff]

/-! ## Values -/

/-- There is a first result if there is any. -/
theorem isSome_firstOf {α : Type} (results : List (Option α)) :
    (firstOf results).isSome = results.any Option.isSome := by
  rw [firstOf, List.isSome_findSome?]
  rfl

/-- Whether there is a tag of the document's own in a node does not depend on where the node is. -/
theorem isSome_taggedPath? (document : Yaml.Document) (depth : Nat) (path other : String)
    (node : Node) :
    (taggedPath? document depth path node).isSome =
    (taggedPath? document depth other node).isSome := by
  induction depth generalizing path other node with
  | zero =>
    unfold taggedPath?
    by_cases htag : (document.target node).tag?.any Yaml.isOwnTag <;> simp [htag]
  | succ depth ih =>
    unfold taggedPath?
    by_cases htag : (document.target node).tag?.any Yaml.isOwnTag
    · simp [htag]
    · simp only [htag, Bool.false_eq_true, if_false]
      cases document.target node with
      | aliasTo number => rfl
      | scalar tag? style text => rfl
      | sequence tag? items =>
        simp only [isSome_firstOf, List.any_map]
        congr 1
        funext item
        exact ih _ _ _
      | mapping tag? entries =>
        simp only [isSome_firstOf, List.any_map]
        congr 1
        funext entry
        simp only [Function.comp_apply, Option.isSome_or]
        rw [ih path other, ih (path ++ "." ++ keyPath entry.1) (other ++ "." ++ keyPath entry.1)]

/-- Whether a boolean can be read, and which, does not depend on its place. -/
theorem toOption_decodeBool (path other : String) (node : Node) :
    (decodeBool path node).toOption = (decodeBool other node).toOption := by
  unfold decodeBool
  extract_lets value?
  cases value? <;> rfl

/-- Neither does a text depend on it. -/
theorem toOption_decodeText (path other : String) (node : Node) :
    (decodeText path node).toOption = (decodeText other node).toOption := by
  cases node <;> rfl

/-- Neither do patterns depend on it. -/
theorem toOption_decodePatterns (document : Yaml.Document) (path other : String) (node : Node) :
    (decodePatterns document path node).toOption =
    (decodePatterns document other node).toOption := by
  -- A tag of the document's own is found from both places or from none; only its path is different.
  have htagged := isSome_taggedPath? document Yaml.Document.maxDepth path other node
  unfold decodePatterns
  cases hpath : taggedPath? document Yaml.Document.maxDepth path node with
  | none =>
    have hother : taggedPath? document Yaml.Document.maxDepth other node = none := by
      simpa [hpath] using htagged
    rw [hother]
  | some tagged =>
    obtain ⟨otherTagged, hother⟩ :=
      Option.isSome_iff_exists.1 (htagged.symm.trans (by rw [hpath]; rfl))
    rw [hother]
    split
    · rfl
    · cases document.valueOf? node <;> rfl

/-- A text that is not null is a pattern. -/
theorem decodePatterns_text {path text : String} {style : Yaml.Style}
    (hnull : isNull (.scalar none style text) = false)
    (htext : Yaml.scalarValue? none style text = some (.string text)) :
    decodePatterns document path (.scalar none style text) = .ok (some (.single text)) := by
  have htagged : taggedPath? document Yaml.Document.maxDepth path (.scalar none style text) =
      none := by
    unfold taggedPath?
    rfl
  rw [decodePatterns, hnull, Yaml.Document.valueOf?_scalar, htext, htagged]
  rfl

theorem toOption_map {α β : Type} (f : α → β) (result : Decoded α) :
    (result.map f).toOption = result.toOption.map f := by
  cases result <;> rfl

/-- What an option is set to, if it can be, does not depend on where its value is. -/
theorem toOption_decodeSetting (document : Yaml.Document) (option : OptionName)
    (path other : String) (node : Node) : (decodeSetting document option path node).toOption =
      (decodeSetting document option other node).toOption := by
  cases option <;> simp only [decodeSetting, toOption_map]
  case excludeQueries | infiniteQueries => rw [toOption_decodePatterns document path other]
  case autogenKey | rawResponse | useTypeImports => rw [toOption_decodeBool path other]
  case typesPrefix | typesSuffix => rw [toOption_decodeText path other]

/-- A value is read if it is the result. -/
theorem toOption_eq_some_iff {α : Type} {result : Decoded α} {value : α} :
    result.toOption = some value ↔ result = .ok value := by
  cases result <;> simp [Except.toOption]

/-- An option is set to a value of its own. -/
theorem name_of_decodeSetting {path : String} {node : Node} {setting : Setting}
    (h : decodeSetting document option path node = .ok setting) : setting.name = option := by
  have hmap {α : Type} {result : Decoded α} {f : α → Setting}
      (hname : ∀ value, (f value).name = option)
      (h : result.map f = .ok setting) : setting.name = option := by
    cases result with
    | error error => exact absurd h (by simp [Except.map])
    | ok value =>
      obtain rfl : f value = setting := Except.ok.inj h
      exact hname value
  cases option <;> exact hmap (fun _ => rfl) h

/-- The setting that an entry gives for an option. -/
def decodeValue (document : Yaml.Document) (option : OptionName) (entry : Node × Node) :
    Decoded Setting :=
  decodeSetting document option (keyPath entry.1) (document.target entry.2)

/-! ## Entries in order -/

/-- An entry for no option is passed over. -/
theorem decodeEntry_of_optionOf?_eq_none {key : String} (hkey : HasKey document entry key)
    (h : optionOf? document entry = none) : decodeEntry document seen entry = .ok none := by
  rw [optionOf?_of_hasKey hkey] at h
  rw [decodeEntry, decodeKey_eq_ok_iff.2 hkey]
  simp only [bind, Except.bind, h]
  rfl

/-- An entry for an option gives its value, unless the option was given before. -/
theorem decodeEntry_of_isFor (h : IsFor document entry option) :
    decodeEntry document seen entry =
      if option ∈ seen then .error (.duplicate option)
      else (decodeValue document option entry).map some := by
  obtain ⟨key, hmem, hkey⟩ := h
  rw [decodeEntry, decodeKey_eq_ok_iff.2 hkey]
  simp only [bind, Except.bind, OptionName.ofKey?_eq_some_iff.2 hmem]
  split
  · rfl
  · rw [decodeValue]
    cases decodeSetting document option (keyPath entry.1) (document.target entry.2) <;> rfl

/-- An entry that is for no option is passed over. -/
theorem decodeEntries_cons_of_none {key : String} (hkey : HasKey document entry key)
    (h : optionOf? document entry = none) :
    decodeEntries document seen (entry :: entries) = decodeEntries document seen entries := by
  rw [decodeEntries, decodeEntry_of_optionOf?_eq_none hkey h]
  rfl

/-- An entry that is for an option sets it, unless it was given before. -/
theorem decodeEntries_cons_of_isFor (h : IsFor document entry option) :
    decodeEntries document seen (entry :: entries) = .ok settings ↔
      option ∉ seen ∧ ∃ setting later, decodeValue document option entry = .ok setting ∧
        decodeEntries document (option :: seen) entries = .ok later ∧
          settings = setting :: later := by
  rw [decodeEntries, decodeEntry_of_isFor h]
  by_cases hseen : option ∈ seen
  · simp [hseen, bind, Except.bind]
  · cases hvalue : decodeValue document option entry with
    | error error => simp [hseen, bind, Except.bind, Except.map]
    | ok setting =>
      have hname : setting.name = option := name_of_decodeSetting hvalue
      cases hlater : decodeEntries document (option :: seen) entries with
      | error error => simp [hseen, bind, Except.bind, Except.map, hname, hlater]
      | ok later =>
        simp [hseen, bind, Except.bind, Except.map, hname, hlater, pure, Except.pure, eq_comm]

/--
The settings of some entries in order.  Each is for the option of its entry, which is given only
once and was not given before.
-/
structure Lists (document : Yaml.Document) (seen : List OptionName) (entries : List (Node × Node))
    (settings : List Setting) : Prop where
  names : settings.map Setting.name = given document entries
  once : (given document entries).Nodup
  unseen : ∀ option ∈ given document entries, option ∉ seen
  values : ∀ entry ∈ entries, ∀ option, IsFor document entry option →
    ∃ setting ∈ settings, decodeValue document option entry = .ok setting

/-- An entry for no option gives none. -/
theorem given_cons_of_none (h : optionOf? document entry = none) :
    given document (entry :: entries) = given document entries :=
  List.filterMap_cons_none h

/-- An entry for an option gives this one first. -/
theorem given_cons_of_isFor (h : IsFor document entry option) :
    given document (entry :: entries) = option :: given document entries :=
  List.filterMap_cons_some (optionOf?_eq_some_iff.2 h)

/-- An entry that is for no option adds no setting. -/
theorem Lists.skip (h : optionOf? document entry = none)
    (hlists : Lists document seen entries settings) :
    Lists document seen (entry :: entries) settings := by
  obtain ⟨hnames, honce, hunseen, hvalues⟩ := hlists
  rw [← given_cons_of_none h] at hnames honce hunseen
  refine ⟨hnames, honce, hunseen, ?_⟩
  intro later hlater option hfor
  rcases List.mem_cons.1 hlater with rfl | hlater
  · rw [← optionOf?_eq_some_iff, h] at hfor
    cases hfor
  · exact hvalues later hlater option hfor

/-- An entry that is for an option adds its setting in front. -/
theorem Lists.take {setting : Setting} (h : IsFor document entry option) (hseen : option ∉ seen)
    (hvalue : decodeValue document option entry = .ok setting)
    (hlists : Lists document (option :: seen) entries settings) :
    Lists document seen (entry :: entries) (setting :: settings) := by
  obtain ⟨hnames, honce, hunseen, hvalues⟩ := hlists
  have hnew : option ∉ given document entries := fun hmem => hunseen option hmem List.mem_cons_self
  have hname : setting.name = option := name_of_decodeSetting hvalue
  refine ⟨?_, ?_, ?_, ?_⟩
  · rw [given_cons_of_isFor h, List.map_cons, hname, hnames]
  · rw [given_cons_of_isFor h]
    exact List.nodup_cons.2 ⟨hnew, honce⟩
  · rw [given_cons_of_isFor h]
    exact List.forall_mem_cons.2
      ⟨hseen, fun later hlater hmem => hunseen later hlater (List.mem_cons_of_mem _ hmem)⟩
  · intro later hlater other hfor
    rcases List.mem_cons.1 hlater with rfl | hlater
    · obtain rfl : option = other :=
        Option.some.inj ((optionOf?_eq_some_iff.2 h).symm.trans (optionOf?_eq_some_iff.2 hfor))
      exact ⟨setting, List.mem_cons_self, hvalue⟩
    · obtain ⟨found, hfound, hdecoded⟩ := hvalues later hlater other hfor
      exact ⟨found, List.mem_cons_of_mem _ hfound, hdecoded⟩

/-- What is decoded are the settings of the entries. -/
theorem lists_of_decodeEntries (hkeys : ∀ entry ∈ entries, ∃ key, HasKey document entry key)
    (h : decodeEntries document seen entries = .ok settings) :
    Lists document seen entries settings := by
  -- By induction on the entries; an option that is taken has been seen by the entries behind it.
  induction entries generalizing seen settings with
  | nil =>
    obtain rfl : [] = settings := Except.ok.inj h
    exact ⟨rfl, List.nodup_nil, by simp [given], by simp⟩
  | cons entry entries ih =>
    obtain ⟨⟨key, hkey⟩, hkeys⟩ := List.forall_mem_cons.1 hkeys
    cases hoption : optionOf? document entry with
    | none =>
      rw [decodeEntries_cons_of_none hkey hoption] at h
      exact (ih hkeys h).skip hoption
    | some option =>
      have hfor := optionOf?_eq_some_iff.1 hoption
      obtain ⟨hseen, setting, later, hvalue, hlater, rfl⟩ := (decodeEntries_cons_of_isFor hfor).1 h
      exact (ih hkeys hlater).take hfor hseen hvalue

/-- Entries can be decoded if each can and no option is given twice or was given before. -/
theorem exists_decodeEntries (hkeys : ∀ entry ∈ entries, ∃ key, HasKey document entry key)
    (honce : (given document entries).Nodup)
    (hunseen : ∀ option ∈ given document entries, option ∉ seen)
    (hvalues : ∀ entry ∈ entries, ∀ option, IsFor document entry option →
      ∃ setting, decodeValue document option entry = .ok setting) :
    ∃ settings, decodeEntries document seen entries = .ok settings := by
  induction entries generalizing seen with
  | nil => exact ⟨[], rfl⟩
  | cons entry entries ih =>
    obtain ⟨⟨key, hkey⟩, hkeys⟩ := List.forall_mem_cons.1 hkeys
    obtain ⟨hfirst, hvalues⟩ := List.forall_mem_cons.1 hvalues
    cases hoption : optionOf? document entry with
    | none =>
      rw [given_cons_of_none hoption] at honce hunseen
      rw [decodeEntries_cons_of_none hkey hoption]
      exact ih hkeys honce hunseen hvalues
    | some option =>
      have hfor := optionOf?_eq_some_iff.1 hoption
      rw [given_cons_of_isFor hfor] at honce hunseen
      obtain ⟨hnew, honce⟩ := List.nodup_cons.1 honce
      obtain ⟨hseen, hunseen⟩ := List.forall_mem_cons.1 hunseen
      obtain ⟨setting, hsetting⟩ := hfirst option hfor
      have hunseen : ∀ other ∈ given document entries, other ∉ option :: seen := by
        intro other hother hmem
        rcases List.mem_cons.1 hmem with rfl | hmem
        · exact hnew hother
        · exact hunseen other hother hmem
      obtain ⟨later, hlater⟩ := ih hkeys honce hunseen hvalues
      exact ⟨setting :: later,
        (decodeEntries_cons_of_isFor hfor).2 ⟨hseen, setting, later, hsetting, hlater, rfl⟩⟩

/-! ## Options from entries -/

/-- If no option is set twice, the last setting of each is the only one. -/
theorem lastFor?_of_mem {setting : Setting} (honce : (settings.map Setting.name).Nodup)
    (h : setting ∈ settings) : lastFor? settings setting.name = some setting := by
  cases hlast : lastFor? settings setting.name with
  | none =>
    have hnone := List.find?_eq_none.1 hlast setting (List.mem_reverse.2 h)
    exact absurd (beq_self_eq_true setting.name) hnone
  | some last =>
    have hmem := List.mem_reverse.1 (List.mem_of_find?_eq_some hlast)
    have hname : last.name = setting.name := by simpa using List.find?_some hlast
    rw [List.inj_on_of_nodup_map honce hmem h hname]

/--
Options hold the values that some entries give, and the default of each option for which there is no
entry; and no option is given twice.
-/
structure HoldsEntries (document : Yaml.Document) (entries : List (Node × Node))
    (options : Options) :
    Prop where
  once : (given document entries).Nodup
  held : ∀ entry ∈ entries, ∀ option, IsFor document entry option →
    decodeValue document option entry = .ok (options.get option)
  unset : ∀ option, (∀ entry ∈ entries, ¬IsFor document entry option) →
    options.get option = ({} : Options).get option

/-- Options that are set to the settings of some entries hold these entries. -/
theorem Lists.holdsEntries (h : Lists document seen entries settings) :
    HoldsEntries document entries (ofSettings settings) := by
  have hlast := holdsLast_ofSettings settings
  refine ⟨h.once, ?_, ?_⟩
  · intro entry hentry option hfor
    obtain ⟨setting, hsetting, hvalue⟩ := h.values entry hentry option hfor
    obtain rfl : setting.name = option := name_of_decodeSetting hvalue
    rw [hlast, lastFor?_of_mem (h.names ▸ h.once) hsetting]
    exact hvalue
  · intro option hnone
    have hlast? : lastFor? settings option = none := by
      rw [lastFor?, List.find?_eq_none]
      intro setting hsetting hname
      have hmem : setting.name ∈ given document entries :=
        h.names ▸ List.mem_map_of_mem (List.mem_reverse.1 hsetting)
      obtain ⟨entry, hentry, hfor⟩ := mem_given_iff.1 hmem
      exact hnone entry hentry (eq_of_beq hname ▸ hfor)
    rw [hlast, hlast?]
    rfl

/-- No other options hold the same entries. -/
theorem HoldsEntries.eq {others : Options} (h : HoldsEntries document entries options)
    (hothers : HoldsEntries document entries others) : options = others := by
  apply eq_of_get_eq
  intro option
  by_cases hgiven : ∃ entry ∈ entries, IsFor document entry option
  · obtain ⟨entry, hentry, hfor⟩ := hgiven
    exact Except.ok.inj ((h.held entry hentry option hfor).symm.trans
      (hothers.held entry hentry option hfor))
  · have hnone : ∀ entry ∈ entries, ¬IsFor document entry option :=
      fun entry hentry hfor => hgiven ⟨entry, hentry, hfor⟩
    rw [h.unset option hnone, hothers.unset option hnone]

/-- Entries give the options that hold their values, and fail if there are no such options. -/
theorem ofEntries_eq_ok_iff (hkeys : ∀ entry ∈ entries, ∃ key, HasKey document entry key) :
    ofEntries document entries = .ok options ↔ HoldsEntries document entries options := by
  constructor
  · intro h
    rw [ofEntries] at h
    cases hdecoded : decodeEntries document [] entries with
    | error error => simp [hdecoded, Except.map] at h
    | ok settings =>
      obtain rfl : ofSettings settings = options := by simpa [hdecoded, Except.map] using h
      exact (lists_of_decodeEntries hkeys hdecoded).holdsEntries
  · intro h
    have hunseen : ∀ option ∈ given document entries, option ∉ [] := fun _ _ => List.not_mem_nil
    obtain ⟨settings, hdecoded⟩ := exists_decodeEntries hkeys h.once hunseen
      fun entry hentry option hfor => ⟨_, h.held entry hentry option hfor⟩
    have hheld := (lists_of_decodeEntries hkeys hdecoded).holdsEntries
    rw [ofEntries, hdecoded, h.eq hheld]
    rfl

/-! ## Entries that give the same -/

/-- The options that are given stay, if only entries that are for no option are left out. -/
theorem given_filter {keep : Node × Node → Bool}
    (hkeep : ∀ entry ∈ entries, ∀ option, IsFor document entry option → keep entry = true) :
    given document (entries.filter keep) = given document entries := by
  rw [given, List.filterMap_filter]
  refine List.filterMap_congr fun entry hentry => ?_
  cases hoption : optionOf? document entry with
  | none => simp
  | some option => simp [hkeep entry hentry option (optionOf?_eq_some_iff.1 hoption)]

/-- Each value that some entries give for an option is given by some others for this option. -/
def Covered (document : Yaml.Document) (entries others : List (Node × Node)) : Prop :=
  ∀ entry ∈ entries, ∀ option, IsFor document entry option →
    ∃ other ∈ others, IsFor document other option ∧ other.2 = entry.2

/-- Options that hold some entries hold all others that give the same. -/
theorem HoldsEntries.of_covered (h : HoldsEntries document entries options)
    (hgiven : (given document entries).Perm (given document others))
    (hcovered : Covered document entries others) (hcovers : Covered document others entries) :
    HoldsEntries document others options := by
  refine ⟨hgiven.nodup h.once, ?_, ?_⟩
  · intro other hother option hfor
    obtain ⟨entry, hentry, hforEntry, hvalue⟩ := hcovers other hother option hfor
    have hheld := h.held entry hentry option hforEntry
    rw [decodeValue, ← toOption_eq_some_iff] at hheld ⊢
    rwa [← hvalue, toOption_decodeSetting document option _ (keyPath entry.1)]
  · intro option hnone
    refine h.unset option fun entry hentry hfor => ?_
    obtain ⟨other, hother, hforOther, -⟩ := hcovered entry hentry option hfor
    exact hnone other hother hforOther

/-- Entries that give the same values for the same options make the same options, or none do. -/
theorem ofEntries_eq_ok_iff_of_covered (hkeys : ∀ entry ∈ entries, ∃ key, HasKey document entry key)
    (hotherKeys : ∀ other ∈ others, ∃ key, HasKey document other key)
    (hgiven : (given document entries).Perm (given document others))
    (hcovered : Covered document entries others) (hcovers : Covered document others entries) :
    ofEntries document others = .ok options ↔ ofEntries document entries = .ok options := by
  rw [ofEntries_eq_ok_iff hkeys, ofEntries_eq_ok_iff hotherKeys]
  exact ⟨fun h => h.of_covered hgiven.symm hcovers hcovered,
    fun h => h.of_covered hgiven hcovered hcovers⟩

/-- An entry with the same value, whose key is the same or another name of the same option. -/
def Respelled (document : Yaml.Document) (entry other : Node × Node) : Prop :=
  other.2 = entry.2 ∧
    (other.1 = entry.1 ∨ ∃ option, IsFor document entry option ∧ IsFor document other option)

namespace Respelled

/-- A key under another name is for the same option. -/
theorem optionOf?_eq (h : Respelled document entry other) :
    optionOf? document other = optionOf? document entry := by
  obtain ⟨-, hkey | ⟨option, hfor, hforOther⟩⟩ := h
  · rw [optionOf?, optionOf?, hkey]
  · rw [optionOf?_eq_some_iff.2 hfor, optionOf?_eq_some_iff.2 hforOther]

/-- An entry that is spelled in another way has a key as well. -/
theorem exists_hasKey (h : Respelled document entry other)
    (hkey : ∃ key, HasKey document entry key) :
    ∃ key, HasKey document other key := by
  obtain ⟨-, hsame | ⟨option, -, key, -, hother⟩⟩ := h
  · simpa only [HasKey, hsame] using hkey
  · exact ⟨key, hother⟩

/-- Spelling in another way works both ways. -/
theorem symm (h : Respelled document entry other) : Respelled document other entry :=
  ⟨h.1.symm, h.2.imp Eq.symm fun ⟨option, hfor, hother⟩ => ⟨option, hother, hfor⟩⟩

end Respelled

/-- Entries that are spelled in another way give the same options. -/
theorem given_eq_of_respelled (h : List.Forall₂ (Respelled document) entries others) :
    given document others = given document entries := by
  induction h with
  | nil => rfl
  | cons hfirst _ ih =>
    rw [given, given, List.filterMap_cons, List.filterMap_cons, hfirst.optionOf?_eq, ← given,
      ← given, ih]

/-- Each of the entries is respelled somewhere among the others. -/
theorem exists_respelled (h : List.Forall₂ (Respelled document) entries others) :
    ∀ entry ∈ entries, ∃ other ∈ others, Respelled document entry other := by
  induction h with
  | nil => exact fun _ hmem => absurd hmem List.not_mem_nil
  | @cons entry other entries others hfirst _ ih =>
    refine List.forall_mem_cons.2 ⟨⟨other, List.mem_cons_self, hfirst⟩, fun later hlater => ?_⟩
    obtain ⟨found, hfound, hrespelled⟩ := ih later hlater
    exact ⟨found, List.mem_cons_of_mem _ hfound, hrespelled⟩

/-- The values of entries are among those of the entries spelled in another way. -/
theorem covered_of_respelled (h : List.Forall₂ (Respelled document) entries others) :
    Covered document entries others := by
  intro entry hentry option hfor
  obtain ⟨other, hother, hrespelled⟩ := exists_respelled h entry hentry
  refine ⟨other, hother, ?_, hrespelled.1⟩
  rwa [← optionOf?_eq_some_iff, hrespelled.optionOf?_eq, optionOf?_eq_some_iff]

/-- The values of entries are among those of any others that contain them. -/
theorem covered_of_subset (h : entries ⊆ others) : Covered document entries others :=
  fun entry hentry _ hfor => ⟨entry, h hentry, hfor, rfl⟩

/-- An option that two entries are for is given more than once. -/
theorem not_nodup_given {front middle back : List (Node × Node)} {first second : Node × Node}
    (hfirst : IsFor document first option) (hsecond : IsFor document second option) :
    ¬(given document (front ++ first :: (middle ++ second :: back))).Nodup := by
  intro h
  rw [given, List.filterMap_append, ← given, ← given, given_cons_of_isFor hfirst] at h
  have hnew := (List.nodup_cons.1 (List.nodup_append.1 h).2.1).1
  exact hnew (mem_given_iff.2 ⟨second, by simp, hsecond⟩)

/--
Entries whose keys are scalars give the options that hold their values.  It makes no difference if
entries that are for no option are left out, if the entries are put in another order, or if keys are
replaced by other names of the same options; what their aliases stand for is the same throughout.
Entries that give an option twice give no options at all.
-/
theorem entries_count_by_option_and_value (document : Yaml.Document) {entries : List (Node × Node)}
    (hkeys : ∀ entry ∈ entries, ∃ key, HasKey document entry key) :
    (∀ options, ofEntries document entries = .ok options ↔ HoldsEntries document entries options) ∧
    (∀ keep : Node × Node → Bool,
      (∀ entry ∈ entries, ∀ option, IsFor document entry option → keep entry = true) →
        ∀ options, ofEntries document (entries.filter keep) = .ok options ↔
          ofEntries document entries = .ok options) ∧
    (∀ others : List (Node × Node), entries.Perm others →
      ∀ options, ofEntries document others = .ok options ↔
        ofEntries document entries = .ok options) ∧
    (∀ others : List (Node × Node), List.Forall₂ (Respelled document) entries others →
      ∀ options, ofEntries document others = .ok options ↔
        ofEntries document entries = .ok options) ∧
    ∀ (front : List (Node × Node)) (first : Node × Node) (middle : List (Node × Node))
      (second : Node × Node) (back : List (Node × Node)) (option : OptionName),
      entries = front ++ first :: (middle ++ second :: back) → IsFor document first option →
        IsFor document second option → ∃ error, ofEntries document entries = .error error := by
  refine ⟨fun options => ofEntries_eq_ok_iff hkeys, ?_, ?_, ?_, ?_⟩
  · intro keep hkeep options
    have hcovered : Covered document entries (entries.filter keep) :=
      fun entry hentry option hfor =>
      ⟨entry, List.mem_filter.2 ⟨hentry, hkeep entry hentry option hfor⟩, hfor, rfl⟩
    exact ofEntries_eq_ok_iff_of_covered hkeys
      (fun entry hentry => hkeys entry (List.mem_of_mem_filter hentry))
      (.of_eq (given_filter hkeep).symm) hcovered
      (covered_of_subset (List.filter_subset_self entries))
  · intro others hperm options
    exact ofEntries_eq_ok_iff_of_covered hkeys
      (fun other hother => hkeys other (hperm.mem_iff.2 hother))
      (hperm.filterMap _) (covered_of_subset hperm.subset) (covered_of_subset hperm.symm.subset)
  · intro others hrespelled options
    have hback : List.Forall₂ (Respelled document) others entries :=
      (hrespelled.imp fun _ _ h => h.symm).flip
    refine ofEntries_eq_ok_iff_of_covered hkeys ?_ (.of_eq (given_eq_of_respelled hrespelled).symm)
      (covered_of_respelled hrespelled) (covered_of_respelled hback)
    intro other hother
    obtain ⟨entry, hentry, hkey⟩ := exists_respelled hback other hother
    exact hkey.symm.exists_hasKey (hkeys entry hentry)
  · rintro front first middle second back option rfl hfirst hsecond
    cases hresult : ofEntries document (front ++ first :: (middle ++ second :: back)) with
    | error error => exact ⟨error, rfl⟩
    | ok options =>
      exact absurd ((ofEntries_eq_ok_iff hkeys).1 hresult).once (not_nodup_given hfirst hsecond)

/-- Two options, one of them under its second name, and an entry for none. -/
def pagedEntries : List (Node × Node) :=
  [(.scalar none .plain "useSWRInfinite", .scalar none .plain "list*"),
    (.scalar none .plain "plugins", .sequence none []),
    (.scalar none .plain "autogenKey", .scalar none .plain "true")]

/--
The same options without the entry for none, with their names exchanged, and in another order.
-/
theorem options_of_pagedEntries :
    ∃ options, ofEntries ⟨none, []⟩ pagedEntries = .ok options ∧
      options = { infiniteQueries? := some (.single "list*"), autogenKey := true } ∧
      ofEntries ⟨none, []⟩ (pagedEntries.filter fun entry => keyPath entry.1 != "plugins") =
        .ok options ∧
      ofEntries ⟨none, []⟩ pagedEntries.reverse = .ok options ∧
      ofEntries ⟨none, []⟩
        [(.scalar none .plain "infiniteQueries", .scalar none .plain "list*"),
          (.scalar none .plain "plugins", .sequence none []),
          (.scalar none .plain "autogenSWRKey", .scalar none .plain "true")] = .ok options ∧
      ∃ error, ofEntries ⟨none, []⟩
        (pagedEntries ++ [(.scalar none .plain "infiniteQueries", .scalar none .plain "~")]) =
          .error error := by
  have hkey (text : String) (value : Node) :
      HasKey ⟨none, []⟩ (.scalar none .plain text, value) text :=
    ⟨none, .plain, rfl⟩
  have hfor {text : String} (value : Node) {option : OptionName} (h : text ∈ option.keys) :
      IsFor ⟨none, []⟩ (.scalar none .plain text, value) option :=
    ⟨text, h, hkey text value⟩
  have hkeys : ∀ entry ∈ pagedEntries, ∃ key, HasKey ⟨none, []⟩ entry key := by
    simp only [pagedEntries, List.forall_mem_cons]
    exact ⟨⟨_, hkey _ _⟩, ⟨_, hkey _ _⟩, ⟨_, hkey _ _⟩, by simp⟩
  have hkeep : ∀ entry ∈ pagedEntries, ∀ option, IsFor ⟨none, []⟩ entry option →
      (keyPath entry.1 != "plugins") = true := by
    have hplugins (option : OptionName) :
        ¬IsFor ⟨none, []⟩ (.scalar none .plain "plugins", .sequence none []) option := by
      rw [← optionOf?_eq_some_iff]
      cases option <;> decide
    simp only [pagedEntries, List.forall_mem_cons]
    exact ⟨fun _ _ => by decide, fun option h => absurd h (hplugins option), fun _ _ => by decide,
      by simp⟩
  have hrespelled : List.Forall₂ (Respelled ⟨none, []⟩) pagedEntries
      [(.scalar none .plain "infiniteQueries", .scalar none .plain "list*"),
        (.scalar none .plain "plugins", .sequence none []),
        (.scalar none .plain "autogenSWRKey", .scalar none .plain "true")] :=
    .cons ⟨rfl, .inr ⟨.infiniteQueries, hfor _ (by decide), hfor _ (by decide)⟩⟩
      (.cons ⟨rfl, .inl rfl⟩
        (.cons ⟨rfl, .inr ⟨.autogenKey, hfor _ (by decide), hfor _ (by decide)⟩⟩ .nil))
  obtain ⟨-, hleft, horder, hnames, -⟩ := entries_count_by_option_and_value ⟨none, []⟩ hkeys
  have hresult : ofEntries ⟨none, []⟩ pagedEntries =
      .ok { infiniteQueries? := some (.single "list*"), autogenKey := true } := by
    have hnull : isNull (.scalar none .plain "list*") = false := by decide
    have htext : Yaml.scalarValue? none .plain "list*" = some (.string "list*") := by cbv
    have hfirst : decodeValue ⟨none, []⟩ .infiniteQueries
        (.scalar none .plain "useSWRInfinite", .scalar none .plain "list*") =
          .ok (.infiniteQueries (some (.single "list*"))) :=
      congrArg (Except.map Setting.infiniteQueries) (decodePatterns_text hnull htext)
    have hdecoded : decodeEntries ⟨none, []⟩ [] pagedEntries =
        .ok [.infiniteQueries (some (.single "list*")), .autogenKey true] :=
      (decodeEntries_cons_of_isFor (hfor _ (by decide))).2
        ⟨List.not_mem_nil, _, _, hfirst, rfl, rfl⟩
    rw [ofEntries, hdecoded]
    rfl
  have hlonger :
      ∀ entry ∈ pagedEntries ++ [(.scalar none .plain "infiniteQueries", .scalar none .plain "~")],
        ∃ key, HasKey ⟨none, []⟩ entry key :=
    List.forall_mem_append.2 ⟨hkeys, List.forall_mem_singleton.2 ⟨_, hkey _ _⟩⟩
  obtain ⟨-, -, -, -, htwice⟩ := entries_count_by_option_and_value ⟨none, []⟩ hlonger
  exact ⟨_, hresult, rfl, (hleft _ hkeep _).2 hresult,
    (horder _ (List.reverse_perm _).symm _).2 hresult, (hnames _ hrespelled _).2 hresult,
    htwice [] _ _ _ [] .infiniteQueries rfl (hfor _ (by decide)) (hfor _ (by decide))⟩

end Options

end QueryHooks
