import SignatureIndex.Proofs.CallHelp

/-! The call around a cursor through nested parentheses and strings. Reading a text keeps the open
string and the open parentheses; a fragment that closes what it opens leaves both as they were, and
a string that is being typed hides nothing. So the call found before such text is found behind it,
with more arguments. -/
namespace SignatureIndex.Call

open Text Declaration

/-- How far a text has been read: the quote of the open string, the text itself, nearest character
first, and what stands before each open parenthesis, innermost first. -/
structure Reading where
  quote : Option Char
  passed : List Char
  opens : List (List Char)

/-- Nothing is read. -/
def Reading.start : Reading := ⟨none, [], []⟩

/-- Reads one more character. -/
def Reading.next (state : Reading) (c : Char) : Reading :=
  match state.quote with
  | some q =>
    if c = q ∧ state.passed.head? ≠ some '\\' then ⟨none, c :: state.passed, state.opens⟩
    else ⟨some q, c :: state.passed, state.opens⟩
  | none =>
    if c = '"' ∨ c = '\'' then ⟨some c, c :: state.passed, state.opens⟩
    else if c = '(' then ⟨none, c :: state.passed, state.passed :: state.opens⟩
    else if c = ')' then ⟨none, c :: state.passed, state.opens.tail⟩
    else ⟨none, c :: state.passed, state.opens⟩

/-- A whole text, read from its start. -/
def reading (text : List Char) : Reading :=
  text.foldl Reading.next .start

/-- The open parenthesis of a text that has some of the text before it. -/
def OpenParen.within (text before : List Char) : OpenParen :=
  ⟨before, text.drop (before.length + 1)⟩

/-- A fragment that closes what it opens: read by itself, it meets no closing parenthesis with
nothing open, and it ends with nothing open and outside of strings. -/
structure Balanced (fragment : List Char) : Prop where
  outside : (reading fragment).quote = none
  closed : (reading fragment).opens = []
  opened : ∀ front back, fragment = front ++ ')' :: back → (reading front).quote = none →
    (reading front).opens ≠ []

/-- The same call with more text in its arguments. -/
def Context.extend (context : Context) (more : List Char) : Context :=
  ⟨context.name, context.arguments ++ String.ofList more⟩

section Reading

variable {text : List Char} {state : Reading}

/-- A text is read from where the text before it left off. -/
theorem reading_append (front back : List Char) :
    reading (front ++ back) = back.foldl Reading.next (reading front) :=
  List.foldl_append

theorem reading_concat (front : List Char) (c : Char) :
    reading (front ++ [c]) = (reading front).next c :=
  reading_append front [c]

theorem Reading.passed_next (state : Reading) (c : Char) :
    (state.next c).passed = c :: state.passed := by
  unfold Reading.next
  split
  · split <;> rfl
  · split_ifs <;> rfl

theorem passed_reading (text : List Char) : (reading text).passed = text.reverse := by
  induction text using List.reverseRecOn with
  | nil => rfl
  | append_singleton front c ih =>
      rw [reading_concat, Reading.passed_next, ih, List.reverse_append]
      rfl

/-- A character leaves the open parentheses, or opens one, or closes the innermost. -/
theorem Reading.mem_opens_next {before : List Char} {c : Char}
    (h : before ∈ (state.next c).opens) :
    before ∈ state.opens ∨ c = '(' ∧ before = state.passed := by
  unfold Reading.next at h
  split at h
  · split at h
    · exact .inl h
    · exact .inl h
  · split_ifs at h with hQuote hOpening hClosing
    · exact .inl h
    · rcases List.mem_cons.mp h with rfl | hOld
      · exact .inr ⟨hOpening, rfl⟩
      · exact .inl hOld
    · exact .inl (List.mem_of_mem_tail h)
    · exact .inl h

/-- Open parentheses stand where they are said to stand. -/
theorem exists_of_mem_opens {before : List Char} (h : before ∈ (reading text).opens) :
    ∃ after, text = before.reverse ++ '(' :: after := by
  induction text using List.reverseRecOn with
  | nil => cases h
  | append_singleton front c ih =>
      rw [reading_concat] at h
      rcases Reading.mem_opens_next h with hOld | ⟨rfl, rfl⟩
      · obtain ⟨after, hFront⟩ := ih hOld
        exact ⟨after ++ [c], by rw [hFront, List.append_assoc, List.cons_append]⟩
      · exact ⟨[], by rw [passed_reading, List.reverse_reverse]⟩

/-- The reading gives the open parentheses of the text. -/
theorem openParens_reading (state : Reading) (text : List Char) :
    openParens state.quote state.passed
        (state.opens.map (OpenParen.within (state.passed.reverse ++ text))) text =
      (text.foldl Reading.next state).opens.map
        (OpenParen.within (state.passed.reverse ++ text)) := by
  induction text generalizing state with
  | nil => rfl
  | cons c rest ih =>
      have hStep := ih (state.next c)
      rw [Reading.passed_next, List.reverse_cons, List.append_assoc, List.singleton_append]
        at hStep
      rw [List.foldl_cons, ← hStep]
      obtain ⟨quote, passed, opens⟩ := state
      have hWithin : OpenParen.within (passed.reverse ++ c :: rest) passed = ⟨passed, rest⟩ := by
        rw [OpenParen.within, ← List.length_reverse, ← List.drop_drop, List.drop_left]
        rfl
      cases quote with
      | some q =>
          simp only [openParens, Reading.next]
          split <;> rfl
      | none =>
          simp only [openParens, Reading.next]
          split_ifs
          · rfl
          · rw [List.map_cons, hWithin]
          · rw [List.map_tail]
          · rfl

/-- The call around the end of a text is that of the innermost open parenthesis with a word before
it. -/
theorem context?_eq_findSome? (text : List Char) :
    context? text = (reading text).opens.findSome? fun before =>
      (OpenParen.within text before).context? := by
  have hOpens : openParens none [] [] text =
      (reading text).opens.map (OpenParen.within text) := openParens_reading .start text
  rw [context?, hOpens, List.findSome?_map]
  rfl

end Reading

section Fragment

variable {text fragment : List Char}

/-- What is read behind some text: the open parentheses of that text stay below. -/
def Reading.behind (base state : Reading) : Reading :=
  ⟨state.quote, state.passed ++ base.passed, state.opens.map (· ++ base.passed) ++ base.opens⟩

/-- A character is read behind a text as it is read alone, if the parenthesis that it may close was
opened behind the text too. -/
theorem Reading.behind_next (base : Reading) {state : Reading} {c : Char}
    (hString : state.quote ≠ none → state.passed ≠ [])
    (hOpened : c = ')' → state.quote = none → state.opens ≠ []) :
    (base.behind state).next c = base.behind (state.next c) := by
  obtain ⟨quote, passed, opens⟩ := state
  cases quote with
  | some q =>
      have hHead : (passed ++ base.passed).head? = passed.head? :=
        List.head?_append_of_ne_nil _ (hString (by simp))
      simp only [Reading.behind, Reading.next, hHead]
      split <;> rfl
  | none =>
      simp only [Reading.behind, Reading.next]
      split_ifs with hQuote hOpening hClosing
      · rfl
      · rfl
      · obtain ⟨first, others, rfl⟩ := List.exists_cons_of_ne_nil (hOpened hClosing rfl)
        rfl
      · rfl

/-- A fragment whose closing parentheses all find one that it has opened is read behind a text as it
is read alone. -/
theorem foldl_next_eq_behind {base : Reading} (hBase : base.quote = none)
    (h : ∀ front back, fragment = front ++ ')' :: back → (reading front).quote = none →
      (reading front).opens ≠ []) :
    fragment.foldl Reading.next base = base.behind (reading fragment) := by
  induction fragment using List.reverseRecOn with
  | nil =>
      obtain ⟨quote, passed, opens⟩ := base
      cases hBase
      rfl
  | append_singleton front c ih =>
      have hFront : front.foldl Reading.next base = base.behind (reading front) := by
        refine ih fun inner back hInner => h inner (back ++ [c]) ?_
        rw [hInner, List.append_assoc, List.cons_append]
      rw [List.foldl_append, hFront, reading_concat]
      refine Reading.behind_next base ?_ ?_
      · intro hQuote hNone
        rw [passed_reading, List.reverse_eq_nil_iff] at hNone
        rw [hNone] at hQuote
        exact hQuote rfl
      · rintro rfl
        exact h front [] rfl

/-- A balanced fragment leaves the parentheses open that were open before it. -/
theorem Balanced.opens_append (h : Balanced fragment) (hText : (reading text).quote = none) :
    (reading (text ++ fragment)).opens = (reading text).opens := by
  rw [reading_append, foldl_next_eq_behind hText h.opened, Reading.behind, h.closed]
  rfl

/-- A string that stays open leaves all parentheses as they are. -/
theorem opens_of_open_string {quote : Char} {body : List Char} (hBody : quote ∉ body)
    {state : Reading} (hState : state.quote = some quote) :
    (body.foldl Reading.next state).opens = state.opens := by
  induction body generalizing state with
  | nil => rfl
  | cons c rest ih =>
      obtain ⟨hc, hRest⟩ := not_or.mp (mt List.mem_cons.mpr hBody)
      have hNext : state.next c = ⟨some quote, c :: state.passed, state.opens⟩ := by
        simp [Reading.next, hState, Ne.symm hc]
      rw [List.foldl_cons, ih hRest (by rw [hNext]), hNext]

/-- A string that is still open hides all parentheses inside it. -/
theorem opens_append_string {quote : Char} {body : List Char}
    (hQuote : quote = '"' ∨ quote = '\'') (hBody : quote ∉ body)
    (hText : (reading text).quote = none) :
    (reading (text ++ quote :: body)).opens = (reading text).opens := by
  have hNext : (reading text).next quote =
      ⟨some quote, quote :: (reading text).passed, (reading text).opens⟩ := by
    simp [Reading.next, hText, hQuote]
  rw [reading_append, List.foldl_cons, opens_of_open_string hBody (by rw [hNext]), hNext]

/-- Word characters open and close nothing. -/
theorem foldl_next_word {name : List Char} (hName : ∀ c ∈ name, isWordChar c = true)
    {state : Reading} (hState : state.quote = none) :
    (name.foldl Reading.next state).quote = none ∧
      (name.foldl Reading.next state).opens = state.opens := by
  induction name generalizing state with
  | nil => exact ⟨hState, rfl⟩
  | cons c rest ih =>
      obtain ⟨hc, hRest⟩ := List.forall_mem_cons.mp hName
      have hWord : IsWord [c] := ⟨List.cons_ne_nil c [], by simpa using hc⟩
      have hNe (mark : Char) (hMark : isWordChar mark = false) : c ≠ mark :=
        ne_of_mem_word hWord List.mem_cons_self hMark
      have hNext : state.next c = ⟨none, c :: state.passed, state.opens⟩ := by
        simp [Reading.next, hState, hNe '"' (by decide), hNe '\'' (by decide),
          hNe '(' (by decide), hNe ')' (by decide)]
      rw [List.foldl_cons, hNext]
      exact ih hRest rfl

/-- As long as the same parentheses are open, the call is the same, with more arguments. -/
theorem context?_append {more : List Char}
    (h : (reading (text ++ more)).opens = (reading text).opens) :
    context? (text ++ more) = (context? text).map (·.extend more) := by
  have hEach : ∀ before ∈ (reading text).opens, (OpenParen.within (text ++ more) before).context? =
      (OpenParen.within text before).context?.map (·.extend more) := by
    intro before hMem
    obtain ⟨after, hAfter⟩ := exists_of_mem_opens hMem
    have hLength : before.length + 1 ≤ text.length := by
      rw [hAfter, List.length_append, List.length_reverse, List.length_cons]
      omega
    simp [OpenParen.context?, OpenParen.within, List.drop_append_of_le_length hLength,
      Context.extend, Function.comp_def]
  rw [context?_eq_findSome?, context?_eq_findSome?, h]
  generalize (reading text).opens = opens at hEach
  induction opens with
  | nil => rfl
  | cons before others ih =>
      obtain ⟨hFirst, hOthers⟩ := List.forall_mem_cons.mp hEach
      rw [List.findSome?_cons, List.findSome?_cons, hFirst]
      cases (OpenParen.within text before).context? with
      | none => exact ih hOthers
      | some context => rfl

/-- Behind a word and a parenthesis a call starts. -/
theorem context?_opened {name : List Char} (hText : (reading text).quote = none)
    (hName : IsWord name) (hLast : ∀ c ∈ text.getLast?, ¬isWordChar c = true) :
    context? (text ++ (name ++ ['('])) = some ⟨String.ofList name, ""⟩ := by
  obtain ⟨hQuote, -⟩ := foldl_next_word hName.2 hText
  rw [← reading_append] at hQuote
  have hOpens : (reading (text ++ (name ++ ['(']))).opens =
      (name.reverse ++ text.reverse) :: (reading (text ++ name)).opens := by
    rw [← List.append_assoc, reading_concat, Reading.next, hQuote]
    simp [passed_reading]
  have hWord : lastWord? (name.reverse ++ text.reverse) = some name :=
    lastWord?_append hName (by rwa [List.head?_reverse])
  have hEnd : (text ++ (name ++ ['('])).drop ((name.reverse ++ text.reverse).length + 1) = [] := by
    apply List.drop_eq_nil_of_le
    simp only [List.length_append, List.length_reverse, List.length_singleton]
    omega
  rw [context?_eq_findSome?, hOpens, List.findSome?_cons, OpenParen.context?, OpenParen.within,
    hWord, hEnd]
  rfl

/-- The word that ends a text has only blanks behind it and no word character before it. -/
theorem exists_of_lastWord? {before name : List Char} (h : lastWord? before = some name) :
    IsWord name ∧ ∃ front blanks, before.reverse = front ++ (name ++ blanks) ∧ AllBlank blanks ∧
      ∀ c ∈ front.getLast?, ¬isWordChar c = true := by
  let rest := before.dropWhile isAsciiBlank
  have hRun : rest.takeWhile isWordChar ≠ [] ∧ (rest.takeWhile isWordChar).reverse = name := by
    unfold lastWord? at h
    split at h
    · cases h
    · next hSome => exact ⟨hSome, Option.some.inj h⟩
  obtain ⟨hSome, rfl⟩ := hRun
  have hWord : IsWord (rest.takeWhile isWordChar).reverse := by
    refine ⟨by simpa using hSome, fun c hc => ?_⟩
    exact List.mem_takeWhile_imp (List.mem_reverse.mp hc)
  refine ⟨hWord, (rest.dropWhile isWordChar).reverse, (before.takeWhile isAsciiBlank).reverse,
    ?_, ?_, ?_⟩
  · rw [← List.reverse_append, ← List.reverse_append, List.append_assoc,
      List.takeWhile_append_dropWhile, List.takeWhile_append_dropWhile]
  · intro c hc
    exact List.mem_takeWhile_imp (List.mem_reverse.mp hc)
  · intro c hc hWordChar
    rw [List.getLast?_reverse] at hc
    have hNot := List.head?_dropWhile_not isWordChar rest
    rw [Option.mem_def.mp hc] at hNot
    simp [hWordChar] at hNot

/-- A call that is found stands in the text: its name, blanks, a parenthesis and its arguments. -/
theorem exists_of_context? {context : Context} (h : context? text = some context) :
    IsWord context.name.toList ∧ ∃ front blanks,
      text = front ++ (context.name.toList ++ (blanks ++ '(' :: context.arguments.toList)) ∧
      AllBlank blanks ∧ ∀ c ∈ front.getLast?, ¬isWordChar c = true := by
  rw [context?_eq_findSome?] at h
  obtain ⟨before, hMem, hContext⟩ := List.exists_of_findSome?_eq_some h
  obtain ⟨after, hText⟩ := exists_of_mem_opens hMem
  obtain ⟨name, hName, rfl⟩ := Option.map_eq_some_iff.mp hContext
  obtain ⟨hWord, front, blanks, hBefore, hBlanks, hFront⟩ := exists_of_lastWord? hName
  have hAfter : text.drop (before.length + 1) = after := by
    rw [hText, ← List.length_reverse, ← List.drop_drop, List.drop_left]
    rfl
  rw [String.toList_ofList, String.toList_ofList]
  refine ⟨hWord, front, blanks, ?_, hBlanks, hFront⟩
  change before.reverse = _ at hBefore
  rw [OpenParen.within, hAfter, hText, hBefore, List.append_assoc, List.append_assoc]

end Fragment

/-- The call around a cursor. Behind a text that ends outside of strings, a balanced fragment and a
string that is being typed go on with the call that was open; a word and a parenthesis open a call.
And whatever call is found in a text, its name, blanks, a parenthesis and its arguments stand at the
end of the text, and the name is a whole word. -/
theorem context?_tracks_nesting (text : List Char) :
    ((reading text).quote = none →
      (∀ fragment, Balanced fragment →
        context? (text ++ fragment) = (context? text).map (·.extend fragment)) ∧
      (∀ quote body, quote = '"' ∨ quote = '\'' → quote ∉ body →
        context? (text ++ quote :: body) = (context? text).map (·.extend (quote :: body))) ∧
      ∀ name, IsWord name → (∀ c ∈ text.getLast?, ¬isWordChar c = true) →
        context? (text ++ (name ++ ['('])) = some ⟨String.ofList name, ""⟩) ∧
    ∀ context, context? text = some context →
      IsWord context.name.toList ∧ ∃ front blanks,
        text = front ++ (context.name.toList ++ (blanks ++ '(' :: context.arguments.toList)) ∧
        AllBlank blanks ∧ ∀ c ∈ front.getLast?, ¬isWordChar c = true := by
  refine ⟨fun hText => ⟨?_, ?_, ?_⟩, fun context => exists_of_context?⟩
  · intro fragment hFragment
    exact context?_append (hFragment.opens_append hText)
  · intro quote body hQuote hBody
    exact context?_append (opens_append_string hQuote hBody hText)
  · intro name hName hLast
    exact context?_opened hText hName hLast

/-- Inside of a group, behind a nested call with a parenthesis in a string. -/
theorem context?_behind_nested_call :
    let text := "Fire(2, (".toList
    let fragment := ['g', '(', '"', ')', '"', ')']
    (reading text).quote = none ∧ Balanced fragment ∧
      context? text = some ⟨"Fire", "2, ("⟩ ∧
      context? (text ++ fragment) = some ⟨"Fire", "2, (g(\")\")"⟩ := by
  intro text fragment
  have hOutside : (reading text).quote = none := by decide
  have hFragment : Balanced fragment := by
    refine ⟨by decide, by decide, ?_⟩
    intro front back hSplit
    obtain ⟨_, rfl, ⟨rfl, -⟩ | ⟨rfl, -⟩⟩ : ∃ inner, front = 'g' :: '(' :: '"' :: inner ∧
        (inner = [] ∧ back = ['"', ')'] ∨ inner = [')', '"'] ∧ back = []) := by
      simpa [fragment, List.cons_eq_append_iff] using hSplit
    · exact fun hNone => absurd hNone (by decide)
    · exact fun _ => by decide
  have hCall : context? text = some ⟨"Fire", "2, ("⟩ := by decide
  have hBehind := ((context?_tracks_nesting text).1 hOutside).1 fragment hFragment
  rw [hCall] at hBehind
  exact ⟨hOutside, hFragment, hCall, hBehind⟩

end SignatureIndex.Call
