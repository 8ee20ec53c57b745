import QueryHooks.Proofs.Casing.Runs

/-!
# Where a text is cut into words

The words of a text are found in one pass, with the character before and the one after in sight.
The same words are found by places: take the longest pieces of letters and digits, and cut each of
them in front of those capitals that begin a word.

Main results:

- Definition `IsRunOf`: a piece of a text that letters and digits do not go on from, to either side.
- Theorem `mem_runs_iff`: the runs of a text are these pieces.
- Definition `isCut`: the places where a run is cut, told from the characters around them.
- Definition `cutAt`: the pieces of a text between some places.
- Theorem `words_eq_pieces`: the words of a run are its pieces between the cuts.
- Theorem `words_are_runs_cut_at_capitals`: the words of any text are the pieces of its runs.
-/

namespace QueryHooks.Casing

/-! ## Longest pieces -/

/-- Some letters and digits of a text that have no other letter or digit beside them. -/
def IsRunOf (run text : List Char) : Prop :=
  ∃ front rest, text = front ++ run ++ rest ∧ IsWord run ∧
    (∀ c ∈ front.getLast?, c.isAlphanum = false) ∧ ∀ c ∈ rest.head?, c.isAlphanum = false

/-- In a text of letters and digits only, the one such piece is the text. -/
theorem isRunOf_of_isAlphanum {run text : List Char} (h : ∀ c ∈ text, c.isAlphanum = true) :
    IsRunOf run text ↔ run = text ∧ text ≠ [] := by
  constructor
  · rintro ⟨front, rest, rfl, hrun, hfront, hrest⟩
    have hnofront : front = [] := by
      by_contra hne
      have hlast := hfront _ (List.getLast?_eq_some_getLast hne)
      rw [h _ (by simp)] at hlast
      exact Bool.noConfusion hlast
    have hnorest : rest = [] := by
      by_contra hne
      have hhead := hrest _ (List.head?_eq_some_head hne)
      rw [h _ (by simp)] at hhead
      exact Bool.noConfusion hhead
    subst hnofront hnorest
    simpa using hrun.ne_nil
  · rintro ⟨rfl, hne⟩
    exact ⟨[], [], by simp, ⟨hne, h⟩, by simp, by simp⟩

/-- A piece without the separator stands in front of it or behind it. -/
theorem eq_append_of_separator_notMem {separator : Char} {front run later text rest : List Char}
    (hnotMem : separator ∉ run) (h : front ++ run ++ later = text ++ separator :: rest) :
    (∃ between, text = front ++ run ++ between ∧ later = between ++ separator :: rest) ∨
      ∃ between, front = text ++ separator :: between ∧ rest = between ++ run ++ later := by
  rcases List.append_eq_append_iff.1 h with ⟨between, htext, hlater⟩ | ⟨behind, hfront, hbehind⟩
  · exact .inl ⟨between, htext, hlater⟩
  · rcases List.cons_eq_append_iff.1 hbehind with ⟨rfl, hlater⟩ | ⟨tail, rfl, hrest⟩
    · exact .inl ⟨[], by simpa using hfront.symm, by simpa using hlater⟩
    · -- The separator stands inside of the front and the piece, so inside of the front.
      rcases List.append_eq_append_iff.1 hfront with ⟨start, _, hrun⟩ | ⟨start, hstart, htail⟩
      · exact absurd (by simp [hrun]) hnotMem
      · rcases List.cons_eq_append_iff.1 htail with ⟨_, hrun⟩ | ⟨between, rfl, rfl⟩
        · exact absurd (by simp [hrun]) hnotMem
        · exact .inr ⟨between, hstart, hrest⟩

/-- Such a piece of two texts with a separator between them is one of either text. -/
theorem isRunOf_append_separator {separator : Char} (hseparator : separator.isAlphanum = false)
    (run text rest : List Char) :
    IsRunOf run (text ++ separator :: rest) ↔ IsRunOf run text ∨ IsRunOf run rest := by
  constructor
  · rintro ⟨front, later, htext, hrun, hfront, hlater⟩
    have hnotMem : separator ∉ run := by
      intro hmem
      rw [hrun.isAlphanum separator hmem] at hseparator
      exact Bool.noConfusion hseparator
    rcases eq_append_of_separator_notMem hnotMem htext.symm with
      ⟨between, hinside, rfl⟩ | ⟨between, rfl, hinside⟩
    · refine .inl ⟨front, between, hinside, hrun, hfront, ?_⟩
      intro c hc
      exact hlater c (by rw [List.head?_append, Option.mem_def.1 hc]; rfl)
    · refine .inr ⟨between, later, hinside, hrun, ?_, hlater⟩
      intro c hc
      exact hfront c (by simp [List.getLast?_append, List.getLast?_cons, Option.mem_def.1 hc])
  · rintro (⟨front, later, rfl, hrun, hfront, hlater⟩ | ⟨front, later, rfl, hrun, hfront, hlater⟩)
    · refine ⟨front, later ++ separator :: rest, by simp, hrun, hfront, ?_⟩
      cases later with
      | nil => simpa using hseparator
      | cons c later => exact hlater
    · refine ⟨text ++ separator :: front, later, by simp, hrun, ?_, hlater⟩
      cases front with
      | nil => simpa using hseparator
      | cons c front => simpa [List.getLast?_append, List.getLast?_cons_cons] using hfront

/-- The runs of a text are the longest pieces of letters and digits in it. -/
theorem mem_runs_iff {run text : List Char} : run ∈ runs text ↔ IsRunOf run text := by
  induction text using separator_induction with
  | alphanum text h =>
    rw [runs_of_isAlphanum h, isRunOf_of_isAlphanum h, List.mem_filter, List.mem_singleton]
    constructor
    · rintro ⟨rfl, hne⟩
      exact ⟨rfl, by simpa using hne⟩
    · rintro ⟨rfl, hne⟩
      exact ⟨rfl, by simpa using hne⟩
  | separator text separator rest hseparator ih ihRest =>
    rw [runs_append_separator hseparator, isRunOf_append_separator hseparator, List.mem_append, ih,
      ihRest]

/-! ## Cuts -/

/--
Whether a run is cut in front of the character at a place.  It is if this is a capital, and either a
lower-case letter or a digit stands in front of it, or a capital in front of it and a lower-case
letter behind it.
-/
def isCut (run : List Char) : Nat → Bool
  | 0 => false
  | place + 1 =>
    run[place + 1]?.any Char.isUpper &&
      (run[place]?.any Char.isLower || run[place]?.any Char.isDigit ||
        run[place]?.any Char.isUpper && run[place + 2]?.any Char.isLower)

/-- The places where a run is cut, in order. -/
def cuts (run : List Char) : List Nat :=
  (List.range run.length).filter (isCut run)

/--
The pieces of a text from its beginning to the first place, between the places and to its end.
-/
def cutAt (text : List Char) (places : List Nat) : List (List Char) :=
  List.zipWith (fun start stop => text.extract start stop) (0 :: places) (places ++ [text.length])

/-- The pieces of a run between its cuts. -/
def pieces (run : List Char) : List (List Char) :=
  cutAt run (cuts run)

/-- Where words begin that stand side by side from a place on. -/
def startsFrom : Nat → List (List Char) → List Nat
  | _, [] => []
  | place, word :: later => place :: startsFrom (place + word.length) later

/-- A word is the piece of a text between the places where it begins and where it ends. -/
theorem extract_of_eq_append {text front word rest : List Char}
    (h : text = front ++ (word ++ rest)) :
    text.extract front.length (front.length + word.length) = word := by
  rw [List.extract_eq_take_drop, h, List.drop_left, Nat.add_sub_cancel_left, List.take_left]

/-- Words that stand side by side are the pieces between the places where they begin. -/
theorem zipWith_extract_startsFrom {text : List Char} (front word : List Char)
    (later : List (List Char)) (h : text = front ++ (word ++ later.flatten)) :
    List.zipWith (fun start stop => text.extract start stop)
        (front.length :: startsFrom (front.length + word.length) later)
        (startsFrom (front.length + word.length) later ++ [text.length]) = word :: later := by
  induction later generalizing front word with
  | nil =>
    have hlength : text.length = front.length + word.length := by simp [h]
    rw [startsFrom, List.nil_append, hlength, List.zipWith_cons_cons, extract_of_eq_append h,
      List.zipWith_nil_left]
  | cons next later ih =>
    have hnext := ih (front ++ word) next (by simp [h])
    rw [List.length_append] at hnext
    rw [startsFrom, List.cons_append, List.zipWith_cons_cons, extract_of_eq_append h, hnext]

/-- The words that a text consists of are its pieces between the places where they begin. -/
theorem cutAt_startsFrom (word : List Char) (later : List (List Char)) :
    cutAt (word ++ later.flatten) (startsFrom word.length later) = word :: later := by
  have h := zipWith_extract_startsFrom [] word later rfl
  rw [List.length_nil, Nat.zero_add] at h
  exact h

/-- A run is cut at a place if a word begins there behind the character in front. -/
theorem isCut_append_cons (front : List Char) (c : Char) (rest : List Char) :
    isCut (front ++ c :: rest) front.length = front.getLast?.any (startsWord · c rest.head?) := by
  rcases List.eq_nil_or_concat' front with rfl | ⟨init, before, rfl⟩
  · rfl
  · have hbefore : (init ++ [before] ++ c :: rest)[init.length]? = some before := by simp
    have hhere : (init ++ [before] ++ c :: rest)[init.length + 1]? = some c := by simp
    have hnext : (init ++ [before] ++ c :: rest)[init.length + 2]? = rest.head? := by
      rw [List.head?_eq_getElem?, List.getElem?_append_right (by simp)]
      simp
    rw [List.length_append, List.length_singleton, isCut, hbefore, hhere, hnext]
    simp [startsWord]

/-- Behind some letters and digits, the words of the others begin at the cuts. -/
theorem startsFrom_splitAfter (front rest : List Char) (h : ∀ c ∈ rest, c.isAlphanum = true) :
    startsFrom (front.length + (splitAfter front.getLast? rest).1.length)
      (splitAfter front.getLast? rest).2 =
      (List.range' front.length rest.length).filter (isCut (front ++ rest)) := by
  -- Each step moves a character over to the front, so the places are those of the same run
  -- throughout.
  induction rest generalizing front with
  | nil => simp [startsFrom]
  | cons c rest ih =>
    obtain ⟨hc, hrest⟩ := List.forall_mem_cons.1 h
    have hlater := ih (front ++ [c]) hrest
    rw [List.append_assoc, List.singleton_append, List.length_append, List.length_singleton,
      List.getLast?_concat] at hlater
    rw [List.length_cons, List.range'_succ]
    cases hstart : front.getLast?.any (startsWord · c rest.head?) with
    | true =>
      rw [splitAfter_of_startsWord hc hstart,
        List.filter_cons_of_pos (by rw [isCut_append_cons, hstart]),
        ← hlater, List.length_nil, Nat.add_zero, startsFrom, List.length_cons, Nat.add_assoc,
          Nat.add_comm 1]
    | false =>
      rw [splitAfter_of_not_startsWord hc hstart,
        List.filter_cons_of_neg (by rw [isCut_append_cons, hstart]; exact Bool.false_ne_true),
        ← hlater, List.length_cons, Nat.add_assoc, Nat.add_comm 1]

/-- The words of a run are its pieces between the cuts. -/
theorem words_eq_pieces {run : List Char} (h : IsWord run) : words run = pieces run := by
  have hcuts : startsFrom (splitAfter none run).1.length (splitAfter none run).2 = cuts run := by
    have hfront := startsFrom_splitAfter [] run h.isAlphanum
    rw [List.length_nil, Nat.zero_add, List.getLast?_nil, List.nil_append,
      ← List.range_eq_range'] at hfront
    exact hfront
  have htext : (splitAfter none run).1 ++ (splitAfter none run).2.flatten = run := by
    rw [flatten_splitAfter, List.filter_eq_self.2 h.isAlphanum]
  have hopen : (splitAfter none run).1 ≠ [] := by
    cases run with
    | nil => exact absurd rfl h.ne_nil
    | cons c rest =>
      rw [splitAfter_of_not_startsWord (h.isAlphanum c List.mem_cons_self) rfl]
      exact List.cons_ne_nil c _
  calc
    words run = (splitAfter none run).1 :: (splitAfter none run).2 := by
      rw [words_eq_consWord, consWord, if_neg (by simpa using hopen)]
    _ = cutAt run (cuts run) := by
      rw [← cutAt_startsFrom, htext, hcuts]

example : pieces "getHTMLPage2Go".toList =
    ["get".toList, "HTML".toList, "Page2".toList, "Go".toList] := by
  decide

/--
The words of a text are found by taking its longest pieces of letters and digits, in order, and
cutting each of them in front of every capital that stands behind a lower-case letter or a digit, or
behind a capital and in front of a lower-case letter.  So no word is empty, and the words side by
side are the letters and digits of the text.
-/
theorem words_are_runs_cut_at_capitals (text : String) :
    words text.toList = (runs text.toList).flatMap pieces ∧
    (∀ run, run ∈ runs text.toList ↔ IsRunOf run text.toList) ∧
    [] ∉ words text.toList ∧
    (words text.toList).flatten = text.toList.filter Char.isAlphanum := by
  refine ⟨?_, fun run => mem_runs_iff, ?_, flatten_words text.toList⟩
  · rw [words_eq_flatMap_runs]
    apply List.flatMap_congr
    intro run hrun
    obtain ⟨_, _, _, hword, _⟩ := mem_runs_iff.1 hrun
    exact words_eq_pieces hword
  · intro hempty
    exact (isWord_of_mem_words [] hempty).ne_nil rfl

end QueryHooks.Casing
