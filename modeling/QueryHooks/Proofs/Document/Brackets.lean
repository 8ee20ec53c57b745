import QueryHooks.Proofs.Document.Nesting
import QueryHooks.Proofs.Document.Segments

/-!
# Brackets of definitions

A definition that is complete has closed every bracket that it has opened.  The invariant is a
count: what is read is taken together with the number of brackets that are open in it, and each
token that can come next changes this number by the bracket that it opens or closes.

Main results:

- Definition `Balances`: how a token changes the number of open brackets.
- Theorems `TypeReader.balances_step`, `ValueReader.balances_step`, `SelectionReader.follows_step`
  and `HeadReader.follows_step`: each reader keeps count of the brackets.
- Theorem `Parser.room_of_run`: the room that is left by some lexemes and the brackets that are open
  behind them add up to what there was in front of them.
-/

namespace QueryHooks.Document

/-! ## Brackets of a token -/

namespace Token

/-- The number of brackets that a token opens. -/
def opens : Token → Nat
  | punctuator c => if opensBracket c then 1 else 0
  | _ => 0

/-- The number of brackets that a token closes. -/
def closes : Token → Nat
  | punctuator c => if closesBracket c then 1 else 0
  | _ => 0

/-- A token takes the room of what it opens, and gives back the room of what it closes. -/
theorem room_eq {left behind : Nat} {token : Token} (h : token.room left = some behind) :
    behind + token.opens = left + token.closes := by
  cases token with
  | punctuator c =>
    simp only [room] at h
    split at h
    · rename_i hopens
      split at h
      · exact absurd h (by simp)
      · obtain rfl := Option.some.inj h
        have hnot := not_closesBracket_of_opensBracket hopens
        simp only [opens, closes, hopens, hnot, if_true, if_false]
        omega
    · rename_i hopens
      split at h
      · rename_i hcloses
        obtain rfl := Option.some.inj h
        simp [opens, closes, hopens, hcloses]
      · rename_i hcloses
        obtain rfl := Option.some.inj h
        simp [opens, closes, hopens, hcloses]
  | ellipsis | name | number | string | block =>
    obtain rfl := Option.some.inj h
    rfl

end Token

/-- The number of brackets that are open after a token, where the number before it is known. -/
def Balances (before : Nat) (token : Token) (after : Nat) : Prop :=
  after + token.closes = before + token.opens

/-- Brackets that are open around what is read take no part in the count. -/
theorem Balances.add_left {before after : Nat} {token : Token} (h : Balances before token after)
    (count : Nat) : Balances (count + before) token (count + after) := by
  rw [Balances] at h ⊢
  omega

theorem Balances.succ {before after : Nat} {token : Token} (h : Balances before token after) :
    Balances (before + 1) token (after + 1) := by
  rw [Balances] at h ⊢
  omega

/-- The number of open brackets that belong to what is still read. -/
def Progress.depth {ρ α : Type} (depthOf : ρ → Nat) : Progress ρ α → Nat
  | more reader => depthOf reader
  | done _ => 0

/-! ## Types and values -/

namespace TypeReader

/-- The number of brackets that are open in a type. -/
def depth : TypeReader → Nat
  | opening depth => depth
  | closing depth _ _ => depth

theorem balances_step {reader later : TypeReader} {token : Token}
    (h : reader.step token = some later) :
    Balances reader.depth token later.depth := by
  unfold step at h
  split at h
  · obtain rfl := Option.some.inj h
    rfl
  · obtain rfl := Option.some.inj h
    rfl
  · obtain rfl := Option.some.inj h
    rfl
  · obtain rfl := Option.some.inj h
    rfl
  · exact absurd h (by simp)

end TypeReader

namespace ValueReader

/-- The number of brackets that are open in a value. -/
def depth : ValueReader → Nat
  | value frames => frames.length
  | reference frames => frames.length
  | fieldName _ frames => frames.length + 1
  | fieldColon _ _ frames => frames.length + 1

/-- With a value complete, the lists and objects around it are open. -/
theorem depth_close (result : Value) (frames : List ValueFrame) :
    (close result frames).depth depth = frames.length := by
  unfold close
  split <;> rfl

/-- What begins a value opens the bracket of a list or of an object, or no bracket. -/
theorem balances_stepValue {references : Bool} {frames : List ValueFrame} {token : Token}
    {progress : Progress ValueReader Value}
    (h : stepValue references frames token = some progress) :
    Balances frames.length token (progress.depth depth) := by
  unfold stepValue at h
  split at h
  · obtain rfl := Option.some.inj h
    rfl
  · obtain rfl := Option.some.inj h
    rfl
  · split at h
    · obtain rfl := Option.some.inj h
      rw [Balances, depth_close]
      rfl
    · exact absurd h (by simp)
  · split at h
    · obtain rfl := Option.some.inj h
      rfl
    · exact absurd h (by simp)
  · obtain ⟨result, hresult, rfl⟩ := Option.map_eq_some_iff.1 h
    rw [Balances, depth_close]
    cases token with
    | punctuator | ellipsis => exact absurd hresult (by simp [Value.ofToken?])
    | name | number | string | block => rfl

theorem balances_step {references : Bool} {reader : ValueReader} {token : Token}
    {progress : Progress ValueReader Value} (h : reader.step references token = some progress) :
    Balances reader.depth token (progress.depth depth) := by
  unfold step at h
  split at h
  · exact balances_stepValue h
  · obtain rfl := Option.some.inj h
    rw [Balances, depth_close]
    rfl
  · obtain rfl := Option.some.inj h
    rfl
  · obtain rfl := Option.some.inj h
    rw [Balances, depth_close]
    rfl
  · obtain rfl := Option.some.inj h
    rfl
  · exact absurd h (by simp)

end ValueReader

/-! ## Selections -/

namespace SelectionReader

/-- The number of brackets that are open in the arguments that are read. -/
def openArguments : SelectionReader → Nat
  | argumentName _ _ | argumentColon _ => 1
  | argumentValue _ reader => reader.depth + 1
  | _ => 0

/-- The number of brackets that are open at a place. -/
def depth (place : Place) : Nat :=
  place.1 + place.2.openArguments

/-- Directives behind the head of a definition are read. -/
def InHead : SelectionReader → Prop
  | directives carrier | directiveName carrier | arguments carrier | argumentName carrier _ |
    argumentColon carrier | argumentValue carrier _ => carrier = .head
  | _ => False

/-- Outside of all selection sets, only directives behind the head are read. -/
def Sound (place : Place) : Prop :=
  place.1 = 0 → place.2.InHead

/-- What comes of a token where `before` brackets are open. -/
structure Follows (before : Nat) (token : Token) (progress : Progress Place Unit) : Prop where
  balances : Balances before token (progress.depth depth)
  sound : ∀ place, progress = .more place → Sound place

variable {open' : Nat} {carrier : Carrier} {token : Token} {progress : Progress Place Unit}

/-- Inside of a selection set, every place is sound. -/
theorem sound_of_ne_zero {reader : SelectionReader} (h : open' ≠ 0) : Sound (open', reader) := by
  intro hzero
  exact absurd hzero h

/-- A place that is sound follows a token that balances its depth. -/
theorem Follows.more {before : Nat} {place : Place}
    (hbalances : Balances before token (depth place))
    (hsound : Sound place) : Follows before token (.more place) where
  balances := hbalances
  sound := by
    rintro _ ⟨⟩
    exact hsound

/-- Inside of a selection the count is kept, as long as a brace is open. -/
theorem follows_stepSelection {first : Bool} (hopen : open' ≠ 0)
    (h : stepSelection open' first token = some progress) : Follows open' token progress := by
  unfold stepSelection at h
  split at h
  · obtain rfl := Option.some.inj h
    exact .more rfl (sound_of_ne_zero hopen)
  · obtain rfl := Option.some.inj h
    exact .more rfl (sound_of_ne_zero hopen)
  · split at h
    · exact absurd h (by simp)
    · split at h
      · exact absurd rfl hopen
      · obtain rfl := Option.some.inj h
        exact ⟨rfl, by simp⟩
      · rename_i hnot
        obtain rfl := Option.some.inj h
        exact .more rfl (sound_of_ne_zero fun hzero => hnot (by rw [hzero]))
  · exact absurd h (by simp)

/-- Behind a field the count is kept, whatever its directives are attached to. -/
theorem follows_stepDirectives (hsound : Sound (open', directives carrier))
    (h : stepDirectives open' carrier token = some progress) : Follows open' token progress := by
  unfold stepDirectives at h
  split at h
  · obtain rfl := Option.some.inj h
    exact .more rfl hsound
  · split at h
    · obtain rfl := Option.some.inj h
      exact .more rfl (sound_of_ne_zero (Nat.succ_ne_zero _))
    · exact absurd h (by simp)
  · split at h
    · exact absurd h (by simp)
    · rename_i hcarrier
      refine follows_stepSelection ?_ h
      intro hzero
      have hhead : carrier = .head := hsound hzero
      exact hcarrier (by rw [hhead]; rfl)

/-- The parenthesis of some arguments is counted. -/
theorem follows_stepArguments (hsound : Sound (open', arguments carrier))
    (h : stepArguments open' carrier token = some progress) : Follows open' token progress := by
  unfold stepArguments at h
  split at h
  · obtain rfl := Option.some.inj h
    exact .more rfl hsound
  · exact follows_stepDirectives hsound h

/-- What follows three dots keeps the count. -/
theorem follows_stepFragment (hopen : open' ≠ 0) (h : stepFragment open' token = some progress) :
    Follows open' token progress := by
  unfold stepFragment at h
  split at h
  · split at h
    · obtain rfl := Option.some.inj h
      exact .more rfl (sound_of_ne_zero hopen)
    · obtain rfl := Option.some.inj h
      exact .more rfl (sound_of_ne_zero hopen)
  · exact follows_stepDirectives (sound_of_ne_zero hopen) h

/-- A place follows each token with the brackets that the token leaves open. -/
theorem follows_step {place : Place} (hsound : Sound place) (h : step place token = some progress) :
    Follows (depth place) token progress := by
  obtain ⟨open', reader⟩ := place
  have hopen (hnot : ¬reader.InHead) : open' ≠ 0 := fun hzero => hnot (hsound hzero)
  unfold step at h
  simp only at h
  split at h
  · exact follows_stepDirectives hsound h
  · obtain rfl := Option.some.inj h
    exact .more rfl hsound
  · exact follows_stepArguments hsound h
  · obtain rfl := Option.some.inj h
    exact .more rfl hsound
  · obtain rfl := Option.some.inj h
    exact .more rfl hsound
  · obtain rfl := Option.some.inj h
    exact .more rfl hsound
  · obtain ⟨result, hresult, rfl⟩ := Option.map_eq_some_iff.1 h
    have hbalances := ((ValueReader.balances_step hresult).add_left open').succ
    cases result with
    | more later => exact .more hbalances hsound
    | done value => exact .more hbalances hsound
  · exact follows_stepSelection (hopen id) h
  · obtain rfl := Option.some.inj h
    exact .more rfl (sound_of_ne_zero (hopen id))
  · exact follows_stepArguments (sound_of_ne_zero (hopen id)) h
  · obtain rfl := Option.some.inj h
    exact .more rfl (sound_of_ne_zero (hopen id))
  · exact follows_stepFragment (hopen id) h
  · obtain rfl := Option.some.inj h
    exact .more rfl (sound_of_ne_zero (hopen id))
  · exact absurd h (by simp)

end SelectionReader

/-! ## Definitions -/

namespace HeadReader

/-- The number of brackets that are open in a definition. -/
def depth : HeadReader → Nat
  | dollar _ _ | variableName _ | variableColon _ _ => 1
  | variableType _ _ reader => reader.depth + 1
  | variableDefault _ _ _ reader => reader.depth + 1
  | body _ place => SelectionReader.depth place
  | outside | operationName _ | variableList _ | fragmentName | fragmentOn _ | fragmentType _ => 0

/-- The body of a definition is read at a sound place. -/
def Sound : HeadReader → Prop
  | body _ place => SelectionReader.Sound place
  | _ => True

/-- What comes of a token where `before` brackets are open. -/
structure Follows (before : Nat) (token : Token) (progress : Progress HeadReader Definition) :
    Prop where
  balances : Balances before token (progress.depth depth)
  sound : ∀ reader, progress = .more reader → reader.Sound

variable {token : Token} {progress : Progress HeadReader Definition}

/-- A sound reader of a definition follows a token that balances its depth. -/
theorem Follows.more {before : Nat} {reader : HeadReader}
    (hbalances : Balances before token reader.depth) (hsound : reader.Sound) :
    Follows before token (.more reader) where
  balances := hbalances
  sound := by
    rintro _ ⟨⟩
    exact hsound

/-- A definition begins with at most the brace that opens its selection. -/
theorem follows_begin {lexeme : Lexeme} {reader : HeadReader} (h : begin? lexeme = some reader) :
    Follows 0 lexeme.token (.more reader) := by
  obtain ⟨position, token⟩ := lexeme
  unfold begin? at h
  simp only at h
  split at h
  · split at h
    · obtain rfl := Option.some.inj h
      exact .more rfl trivial
    · obtain ⟨kind, _, rfl⟩ := Option.map_eq_some_iff.1 h
      exact .more rfl trivial
  · obtain rfl := Option.some.inj h
    exact .more rfl (SelectionReader.sound_of_ne_zero Nat.one_ne_zero)
  · exact absurd h (by simp)

/-- The count of a selection is the count of the definition that it belongs to. -/
theorem follows_stepBody {definition : Definition} {place : SelectionReader.Place}
    (hsound : SelectionReader.Sound place) (h : stepBody definition place token = some progress) :
    Follows (SelectionReader.depth place) token progress := by
  obtain ⟨result, hresult, rfl⟩ := Option.map_eq_some_iff.1 h
  have hfollows := SelectionReader.follows_step hsound hresult
  cases result with
  | more later => exact .more hfollows.balances (hfollows.sound later rfl)
  | done value => exact ⟨hfollows.balances, by simp⟩

/-- A selection that has not begun has nothing open. -/
theorem sound_start : SelectionReader.Sound SelectionReader.start := by
  intro _
  rfl

variable {definition : OperationDefinition}

/-- Behind the name of an operation no bracket is open. -/
theorem follows_stepVariables (h : stepVariables definition token = some progress) :
    Follows 0 token progress := by
  unfold stepVariables at h
  split at h
  · obtain rfl := Option.some.inj h
    exact .more rfl trivial
  · exact follows_stepBody sound_start h

/-- In the list of variables just its parenthesis is open. -/
theorem follows_stepDollar {first : Bool} (h : stepDollar definition first token = some progress) :
    Follows 1 token progress := by
  unfold stepDollar at h
  split at h
  · obtain rfl := Option.some.inj h
    exact .more rfl trivial
  · split at h
    · exact absurd h (by simp)
    · obtain rfl := Option.some.inj h
      exact .more rfl sound_start
  · exact absurd h (by simp)

/-- So it is behind the type of a variable. -/
theorem follows_stepAfterType {name : String} {type : TypeSyntax}
    (h : stepAfterType definition name type token = some progress) : Follows 1 token progress := by
  unfold stepAfterType at h
  split at h
  · obtain rfl := Option.some.inj h
    exact .more rfl trivial
  · exact follows_stepDollar h

/-- No list is open in a type that is complete. -/
theorem depth_of_complete {reader : TypeReader} {type : TypeSyntax}
    (h : reader.complete? = some type) :
    reader.depth = 0 := by
  unfold TypeReader.complete? at h
  split at h
  · rfl
  · exact absurd h (by simp)

/-- Each token that a reader takes keeps the count. -/
theorem follows_step {reader : HeadReader} {lexeme : Lexeme} (hsound : reader.Sound)
    (h : reader.step lexeme = some progress) : Follows reader.depth lexeme.token progress := by
  obtain ⟨position, token⟩ := lexeme
  unfold step at h
  simp only at h
  split at h
  · obtain ⟨later, hbegin, rfl⟩ := Option.map_eq_some_iff.1 h
    exact follows_begin hbegin
  · obtain rfl := Option.some.inj h
    exact .more rfl trivial
  · exact follows_stepVariables h
  · exact follows_stepVariables h
  · exact follows_stepDollar h
  · obtain rfl := Option.some.inj h
    exact .more rfl trivial
  · obtain rfl := Option.some.inj h
    exact .more rfl trivial
  · split at h
    · rename_i later hlater
      obtain rfl := Option.some.inj h
      exact .more (TypeReader.balances_step hlater).succ trivial
    · obtain ⟨type, hcomplete, hafter⟩ := Option.bind_eq_some_iff.1 h
      rw [depth, depth_of_complete hcomplete]
      exact follows_stepAfterType hafter
  · obtain ⟨result, hresult, rfl⟩ := Option.map_eq_some_iff.1 h
    have hbalances := (ValueReader.balances_step hresult).succ
    cases result with
    | more later => exact .more hbalances trivial
    | done value => exact .more hbalances trivial
  · obtain rfl := Option.some.inj h
    exact .more rfl trivial
  · split at h
    · obtain rfl := Option.some.inj h
      exact .more rfl trivial
    · exact absurd h (by simp)
  · obtain rfl := Option.some.inj h
    exact .more rfl sound_start
  · exact follows_stepBody hsound h
  · exact absurd h (by simp)

end HeadReader

/-! ## Runs of the parser -/

namespace Parser

/-- A lexeme that the parser takes leaves open what its brackets leave open. -/
theorem balances_step {parser later : Parser} {lexeme : Lexeme} (hsound : parser.reader.Sound)
    (h : parser.step lexeme = .ok later) :
    Balances parser.reader.depth lexeme.token later.reader.depth ∧ later.reader.Sound := by
  rcases step_cases h with ⟨reader, hreader, rfl⟩ | ⟨definition, hreader, rfl⟩
  · have hfollows := HeadReader.follows_step hsound hreader
    exact ⟨hfollows.balances, hfollows.sound reader rfl⟩
  · exact ⟨(HeadReader.follows_step hsound hreader).balances, trivial⟩

/-- Lexemes that the parser takes leave open what their brackets leave open. -/
theorem room_of_run {parser later : Parser} {lexemes : List Lexeme} {left behind : Nat}
    (hsound : parser.reader.Sound) (hrun : parser.run lexemes = .ok later)
    (hroom : (lexemes.map Lexeme.token).foldlM Token.room left = some behind) :
    behind + later.reader.depth = left + parser.reader.depth := by
  induction lexemes generalizing parser left with
  | nil =>
    obtain rfl := Except.ok.inj hrun
    obtain rfl := Option.some.inj hroom
    rfl
  | cons lexeme lexemes ih =>
    obtain ⟨between, hstep, hlater⟩ := run_cons_eq_ok_iff.1 hrun
    obtain ⟨hbalances, hbetween⟩ := balances_step hsound hstep
    rw [List.map_cons, List.foldlM_cons] at hroom
    obtain ⟨leftBetween, hfirst, hrest⟩ := Option.bind_eq_some_iff.1 hroom
    have htoken := Token.room_eq hfirst
    have hrest := ih hbetween hlater hrest
    rw [Balances] at hbalances
    omega

end Parser

end QueryHooks.Document
