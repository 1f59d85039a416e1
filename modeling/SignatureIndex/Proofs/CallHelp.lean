import SignatureIndex.Document
import SignatureIndex.Proofs.ReservedName

/-! Help behind complete arguments. Parentheses and quotes that are closed inside an argument do not
hide the call around it. The text of the arguments is cut at every comma, though, also at those in
parentheses and quotes, so each piece counts as an argument of its own. -/
namespace SignatureIndex.Call

open Text Declaration

/-- Text in which parentheses and quotes are closed. Outside of them stand only characters that
satisfy a condition, inside any. -/
inductive Closed : (Char → Prop) → List Char → Prop where
  | nil {plain : Char → Prop} : Closed plain []
  | char {plain : Char → Prop} {c : Char} {rest : List Char} (hPlain : plain c)
      (hMark : c ≠ '"' ∧ c ≠ '\'' ∧ c ≠ '(' ∧ c ≠ ')') (hRest : Closed plain rest) :
      Closed plain (c :: rest)
  | quoted {plain : Char → Prop} {quote : Char} {body rest : List Char}
      (hQuote : quote = '"' ∨ quote = '\'') (hBody : ∀ c ∈ body, c ≠ quote ∧ c ≠ '\\')
      (hRest : Closed plain rest) : Closed plain (quote :: (body ++ quote :: rest))
  | group {plain : Char → Prop} {inner rest : List Char} (hInner : Closed (fun _ => True) inner)
      (hRest : Closed plain rest) : Closed plain ('(' :: (inner ++ ')' :: rest))

/-- A complete argument: all commas and colons stand in its own parentheses and quotes. -/
structure IsArgument (text : List Char) : Prop where
  nonempty : text ≠ []
  closed : Closed (fun c => c ≠ ',' ∧ c ≠ ':') text
  unescaped : '\\' ∉ text

/-- A call up to the argument that is to come next. -/
def callText (name : List Char) (args : List (List Char)) : List Char :=
  name ++ '(' :: args.flatMap (· ++ [',', ' '])

section Context

variable {plain : Char → Prop} {text : List Char}

theorem Closed.mono {more : Char → Prop} (h : Closed plain text) (hMore : ∀ c, plain c → more c) :
    Closed more text := by
  induction h with
  | nil => exact .nil
  | char hPlain hMark _ ih => exact .char (hMore _ hPlain) hMark (ih hMore)
  | quoted hQuote hBody _ ih => exact .quoted hQuote hBody (ih hMore)
  | group hInner _ _ ih => exact .group hInner (ih hMore)

theorem Closed.append {more : List Char} (h : Closed plain text) (hMore : Closed plain more) :
    Closed plain (text ++ more) := by
  induction h with
  | nil => exact hMore
  | char hPlain hMark _ ih => exact .char hPlain hMark (ih hMore)
  | quoted hQuote hBody _ ih =>
      rw [List.cons_append, List.append_assoc]
      exact .quoted hQuote hBody (ih hMore)
  | group hInner _ _ ih =>
      rw [List.cons_append, List.append_assoc]
      exact .group hInner (ih hMore)

/-- A text without quotes and parentheses is closed. -/
theorem closed_of_unmarked (hPlain : ∀ c ∈ text, plain c)
    (hMark : ∀ c ∈ text, c ≠ '"' ∧ c ≠ '\'' ∧ c ≠ '(' ∧ c ≠ ')') : Closed plain text := by
  induction text with
  | nil => exact .nil
  | cons c rest ih =>
      obtain ⟨hc, hRest⟩ := List.forall_mem_cons.mp hPlain
      obtain ⟨hUnmarked, hOthers⟩ := List.forall_mem_cons.mp hMark
      exact .char hc hUnmarked (ih hRest hOthers)

theorem closed_of_isWord {name : List Char} (hName : IsWord name)
    (hPlain : ∀ c, isWordChar c = true → plain c) : Closed plain name := by
  apply closed_of_unmarked
  · intro c hc
    exact hPlain c (hName.2 c hc)
  · intro c hc
    exact ⟨ne_of_mem_word hName hc (by decide), ne_of_mem_word hName hc (by decide),
      ne_of_mem_word hName hc (by decide), ne_of_mem_word hName hc (by decide)⟩

/-- A call is a complete argument, whatever stands in its parentheses. -/
theorem isArgument_call {name inner : List Char} (hName : IsWord name)
    (hInner : Closed (fun _ => True) inner) (hEscape : '\\' ∉ inner) :
    IsArgument (name ++ '(' :: (inner ++ [')'])) where
  nonempty := by simp
  closed := by
    have hWord : Closed (fun c => c ≠ ',' ∧ c ≠ ':') name := by
      apply closed_of_isWord hName
      intro c hc
      constructor
      · rintro rfl
        exact absurd hc (by decide)
      · rintro rfl
        exact absurd hc (by decide)
    exact hWord.append (.group hInner .nil)
  unescaped := by
    have hFree : '\\' ∉ name := fun hMem => ne_of_mem_word hName hMem (by decide) rfl
    simp [hFree, hEscape]

/-- An opening parenthesis is noted with what stands before and behind it. -/
theorem openParens_opening (passed : List Char) (opens : List OpenParen) (rest : List Char) :
    openParens none passed opens ('(' :: rest) =
      openParens none ('(' :: passed) (⟨passed, rest⟩ :: opens) rest := by
  simp [openParens]

/-- A closing parenthesis takes the innermost open one away. -/
theorem openParens_closing (passed : List Char) (opens : List OpenParen) (rest : List Char) :
    openParens none passed opens (')' :: rest) =
      openParens none (')' :: passed) opens.tail rest := by
  simp [openParens]

/-- A string is read up to its own quote. -/
theorem openParens_quoted {quote : Char} {body : List Char}
    (hBody : ∀ c ∈ body, c ≠ quote ∧ c ≠ '\\') (passed : List Char) (opens : List OpenParen)
    (rest : List Char) (hPassed : passed.head? ≠ some '\\') :
    openParens (some quote) passed opens (body ++ quote :: rest) =
      openParens none (quote :: (body.reverse ++ passed)) opens rest := by
  induction body generalizing passed with
  | nil => simp [openParens, hPassed]
  | cons c body ih =>
      obtain ⟨⟨hQuote, hEscape⟩, hRest⟩ := List.forall_mem_cons.mp hBody
      rw [List.cons_append, openParens]
      simp only [hQuote, false_and, if_false]
      rw [ih hRest (c :: passed) (by simpa using hEscape)]
      simp

/-- Closed text leaves the parentheses that are open as they are. -/
theorem openParens_closed (h : Closed plain text) (passed : List Char) (opens : List OpenParen)
    (rest : List Char) :
    openParens none passed opens (text ++ rest) =
      openParens none (text.reverse ++ passed) opens rest := by
  induction h generalizing passed opens rest with
  | nil => rfl
  | char _ hMark _ ih =>
      rw [List.cons_append, openParens]
      simp [hMark, ih]
  | @quoted _ quote body tail hQuote hBody _ ih =>
      have hEscape : (quote :: passed).head? ≠ some '\\' := by
        rcases hQuote with rfl | rfl
        · simp
        · simp
      rw [List.cons_append, List.append_assoc, List.cons_append, openParens]
      simp only [hQuote, if_true]
      rw [openParens_quoted hBody _ _ _ hEscape, ih]
      simp
  | @group _ inner tail _ _ ihInner ih =>
      rw [List.cons_append, List.append_assoc, List.cons_append, openParens_opening]
      -- the parenthesis is on the stack while what it holds is read
      rw [ihInner, openParens_closing, List.tail_cons, ih]
      simp

/-- The word at the end of a text is found whole. -/
theorem lastWord?_append {name before : List Char} (h : IsWord name)
    (hBefore : ∀ c ∈ before.head?, ¬isWordChar c = true) :
    lastWord? (name.reverse ++ before) = some name := by
  obtain ⟨hSome, hWord⟩ := h
  have hReverse : ∀ c ∈ name.reverse, isWordChar c = true := by
    intro c hc
    exact hWord c (List.mem_reverse.mp hc)
  have hStart : (name.reverse ++ before).dropWhile isAsciiBlank = name.reverse ++ before := by
    apply dropWhile_eq_self
    intro c hc
    rw [List.head?_append_of_ne_nil _ (by simpa using hSome)] at hc
    exact not_isAsciiBlank_of_word (hReverse c (List.mem_of_mem_head? hc))
  have hNone : before.takeWhile isWordChar = [] := by
    cases before with
    | nil => rfl
    | cons c rest => exact List.takeWhile_cons_of_neg (hBefore c rfl)
  rw [lastWord?, hStart, List.takeWhile_append_of_pos hReverse, hNone, List.append_nil]
  split
  · next hEmpty => exact absurd (List.reverse_eq_nil_iff.mp hEmpty) hSome
  · rw [List.reverse_reverse]

/-- Behind a word, the last word is this word. -/
theorem lastWord?_reverse {name : List Char} (h : IsWord name) :
    lastWord? name.reverse = some name := by
  have hNone : ∀ c ∈ ([] : List Char).head?, ¬isWordChar c = true := by simp
  simpa using lastWord?_append h hNone

/-- The call is found around closed arguments. -/
theorem context?_callText {name : List Char} (hName : IsWord name) {args : List (List Char)}
    (hArgs : ∀ argument ∈ args, Closed (fun _ => True) argument) :
    context? (callText name args) =
      some ⟨String.ofList name, String.ofList (args.flatMap (· ++ [',', ' ']))⟩ := by
  have hComma : Closed (fun _ => True) [',', ' '] :=
    closed_of_unmarked (fun _ _ => trivial) (by simp)
  have hRest : Closed (fun _ => True) (args.flatMap (· ++ [',', ' '])) := by
    induction args with
    | nil => exact .nil
    | cons argument rest ih =>
        obtain ⟨hFirst, hOthers⟩ := List.forall_mem_cons.mp hArgs
        exact (hFirst.append hComma).append (ih hOthers)
  have hOpens : openParens none [] [] (callText name args) =
      [⟨name.reverse, args.flatMap (· ++ [',', ' '])⟩] := by
    rw [callText, openParens_closed (closed_of_isWord hName fun _ _ => trivial), openParens_opening,
      List.append_nil]
    have hEnd := openParens_closed hRest ('(' :: name.reverse)
      [⟨name.reverse, args.flatMap (· ++ [',', ' '])⟩] []
    rw [List.append_nil] at hEnd
    rw [hEnd, openParens]
  rw [context?, hOpens]
  simp [OpenParen.context?, lastWord?_reverse hName]

end Context

section Pieces

variable {names : List String}

/-- The parameter that comes next after complete slots. -/
def reached (names : List String) (slots : List (List Char)) : Nat :=
  let state := slots.foldl (Assignment.take names) ⟨[], 0⟩
  nextFree state.taken state.next

theorem not_mem_spaces {lead : List Char} (h : ∀ c ∈ lead, c = ' ') {c : Char} (hc : c ≠ ' ') :
    c ∉ lead :=
  fun hMem => hc (h c hMem)

theorem trim_lead {lead text : List Char} (h : ∀ c ∈ lead, c = ' ') :
    trim (lead ++ text) = trim text := by
  have hBlank : ∀ c ∈ lead, isBlank c = true := by
    intro c hc
    rw [h c hc]
    decide
  rw [trim, trim, List.dropWhile_append_of_pos hBlank]

theorem beforeColon?_eq_none_iff {slot : List Char} : beforeColon? slot = none ↔ ':' ∉ slot := by
  simp [beforeColon?]

/-- Blanks before an argument do not matter. -/
theorem take_lead {lead slot : List Char} (h : ∀ c ∈ lead, c = ' ') (state : Assignment) :
    state.take names (lead ++ slot) = state.take names slot := by
  have hColon : ':' ∉ lead := not_mem_spaces h (by decide)
  have hBefore : beforeColon? (lead ++ slot) = (beforeColon? slot).map (lead ++ ·) := by
    have hOther : ∀ c ∈ lead, decide (c ≠ ':') = true := by
      intro c hc
      exact decide_eq_true fun hSame => hColon (hSame ▸ hc)
    unfold beforeColon?
    rw [List.takeWhile_append_of_pos hOther]
    by_cases hSlot : ':' ∈ slot
    · simp [hSlot]
    · simp [hSlot, hColon]
  have hMatch (start : List Char) :
      matchParameter? names (lead ++ start) = matchParameter? names start := by
    rw [matchParameter?, matchParameter?, trim_lead h]
  unfold Assignment.take
  rw [hBefore]
  cases beforeColon? slot with
  | none => rfl
  | some start => simp only [Option.map_some, hMatch]

theorem splitOn_lead {sep : Char} {lead : List Char} (h : sep ∉ lead) (text : List Char) :
    List.splitOn sep (lead ++ text) = (List.splitOn sep text).modifyHead (lead ++ ·) := by
  induction lead with
  | nil =>
      rw [List.nil_append]
      cases List.splitOn sep text with
      | nil => rfl
      | cons piece pieces => rfl
  | cons c lead ih =>
      obtain ⟨hc, hLead⟩ := not_or.mp (mt List.mem_cons.mpr h)
      rw [List.cons_append, List.splitOn_cons_eq_if_modifyHead,
        if_neg (by simpa using Ne.symm hc), ih hLead, List.modifyHead_modifyHead]
      rfl

/-- The text of arguments falls into slots that are taken as the pieces of the arguments, and a
blank rest. -/
theorem splitOn_arguments (names : List String) {lead : List Char} (hLead : ∀ c ∈ lead, c = ' ')
    (args : List (List Char)) :
    ∃ slots current,
      List.splitOn ',' (lead ++ args.flatMap (· ++ [',', ' '])) = slots ++ [current] ∧
      (∀ state, slots.foldl (Assignment.take names) state =
        (args.flatMap (List.splitOn ',')).foldl (Assignment.take names) state) ∧
      ∀ c ∈ current, c = ' ' := by
  induction args generalizing lead with
  | nil =>
      have hComma : ',' ∉ lead := not_mem_spaces hLead (by decide)
      refine ⟨[], lead, ?_, fun _ => rfl, hLead⟩
      rw [List.flatMap_nil, splitOn_lead hComma]
      simp
  | cons argument rest ih =>
      have hComma : ',' ∉ lead := not_mem_spaces hLead (by decide)
      obtain ⟨slots, current, hSlots, hTaken, hCurrent⟩ := @ih [' '] (by simp)
      refine ⟨List.splitOn ',' (lead ++ argument) ++ slots, current, ?_, ?_, hCurrent⟩
      · have hText : lead ++ (argument :: rest).flatMap (· ++ [',', ' ']) =
            (lead ++ argument) ++ ',' :: ([' '] ++ rest.flatMap (· ++ [',', ' '])) := by simp
        rw [hText, List.splitOn_append_cons_self, hSlots, List.append_assoc]
      · intro state
        rw [List.foldl_append, List.flatMap_cons, List.foldl_append, hTaken, splitOn_lead hComma]
        cases List.splitOn ',' argument with
        | nil => rfl
        | cons piece pieces =>
            rw [List.modifyHead_cons, List.foldl_cons, List.foldl_cons, take_lead hLead]

/-- The active parameter is the one named at the cursor, or else the next one. -/
theorem activeParameter_eq {arguments : List Char} {supplied : List (List Char)}
    {current : List Char} (h : List.splitOn ',' arguments = supplied ++ [current]) :
    activeParameter names arguments =
      (namedByCurrent? names current).getD (reached names supplied) := by
  simp only [activeParameter, h, List.dropLast_concat, List.getLast?_concat, Option.getD_some,
    reached]

/-- An argument of which nothing is typed yet names no parameter. -/
theorem namedByCurrent?_of_blank {current : List Char} (h : ∀ c ∈ current, isBlank c = true) :
    namedByCurrent? names current = none := by
  have hColon : ':' ∉ current := fun hMem => absurd (h ':' hMem) (by decide)
  have hTrim : trim current = [] := by
    rw [trim, List.dropWhile_eq_nil_iff.mpr h]
    rfl
  simp [namedByCurrent?, beforeColon?_eq_none_iff.mpr hColon, hTrim, startsName]

/-- When every argument is complete, the active parameter is the next one. -/
theorem activeParameter_arguments (names : List String) (args : List (List Char)) :
    activeParameter names (args.flatMap (· ++ [',', ' '])) =
      reached names (args.flatMap (List.splitOn ',')) := by
  obtain ⟨slots, current, hSlots, hTaken, hCurrent⟩ :=
    splitOn_arguments names (List.forall_mem_nil _) args
  have hBlank : ∀ c ∈ current, isBlank c = true := by
    intro c hc
    rw [hCurrent c hc]
    decide
  rw [List.nil_append] at hSlots
  rw [activeParameter_eq hSlots, namedByCurrent?_of_blank hBlank, Option.getD_none, reached,
    reached, hTaken]

theorem nextFree_of_not_mem {taken : List Nat} {start : Nat} (h : start ∉ taken) :
    nextFree taken start = start := by
  simp [nextFree, List.range'_succ, h]

/-- Slots that name no parameter are taken one after the other, those with a colon not at all. -/
theorem foldl_take_unnamed {slots : List (List Char)}
    (h : ∀ slot ∈ slots, ∀ start ∈ beforeColon? slot, matchParameter? names start = none)
    (count : Nat) :
    slots.foldl (Assignment.take names) ⟨(List.range count).reverse, count⟩ =
      ⟨(List.range (count + slots.countP (':' ∉ ·))).reverse,
        count + slots.countP (':' ∉ ·)⟩ := by
  induction slots generalizing count with
  | nil => rfl
  | cons slot rest ih =>
      obtain ⟨hSlot, hRest⟩ := List.forall_mem_cons.mp h
      rw [List.foldl_cons]
      by_cases hColon : ':' ∈ slot
      · obtain ⟨start, hStart⟩ : ∃ start, beforeColon? slot = some start := by
          apply Option.ne_none_iff_exists'.mp
          exact fun hNone => beforeColon?_eq_none_iff.mp hNone hColon
        have hSame : Assignment.take names ⟨(List.range count).reverse, count⟩ slot =
            ⟨(List.range count).reverse, count⟩ := by
          simp only [Assignment.take, hStart, hSlot start hStart]
        rw [hSame, ih hRest, List.countP_cons_of_neg (by simpa using hColon)]
      · have hNext : Assignment.take names ⟨(List.range count).reverse, count⟩ slot =
            ⟨(List.range (count + 1)).reverse, count + 1⟩ := by
          simp only [Assignment.take, beforeColon?_eq_none_iff.mpr hColon]
          rw [nextFree_of_not_mem (by simp), List.range_succ, List.reverse_append]
          rfl
        rw [hNext, ih hRest, List.countP_cons_of_pos (by simpa using hColon),
          Nat.add_assoc, Nat.add_comm 1]

/-- Slots that name no parameter are counted. -/
theorem reached_of_unnamed {slots : List (List Char)}
    (h : ∀ slot ∈ slots, ∀ start ∈ beforeColon? slot, matchParameter? names start = none) :
    reached names slots = slots.countP (':' ∉ ·) := by
  have hTaken := foldl_take_unnamed h 0
  rw [List.range_zero, List.reverse_nil, Nat.zero_add] at hTaken
  simp only [reached, hTaken]
  exact nextFree_of_not_mem (by simp)

theorem length_pieces (args : List (List Char)) :
    (args.flatMap (List.splitOn ',')).length = args.length + args.flatten.count ',' := by
  induction args with
  | nil => rfl
  | cons argument rest ih =>
      rw [List.flatMap_cons, List.length_append, ih, length_splitOn, List.flatten_cons,
        List.count_append, List.length_cons]
      omega

/-- Without colons each slot counts once. -/
theorem reached_eq_length {slots : List (List Char)} (h : ∀ slot ∈ slots, ':' ∉ slot) :
    reached names slots = slots.length := by
  rw [reached_of_unnamed, List.countP_eq_length.mpr]
  · intro slot hSlot
    simpa using h slot hSlot
  · intro slot hSlot start hStart
    rw [beforeColon?_eq_none_iff.mpr (h slot hSlot)] at hStart
    cases hStart

/-- Arguments without colons are counted by the commas between and inside them. -/
theorem reached_of_no_colon {args : List (List Char)} (h : ∀ argument ∈ args, ':' ∉ argument) :
    reached names (args.flatMap (List.splitOn ',')) = args.length + args.flatten.count ',' := by
  rw [reached_eq_length, length_pieces]
  intro piece hPiece hColon
  obtain ⟨argument, hArgument, hPiece⟩ := List.mem_flatMap.mp hPiece
  exact h argument hArgument (ne_and_mem_of_mem_splitOn hPiece hColon).2

end Pieces

/-- A table of scanned scripts finds each of its functions by name, and the name is a word. -/
theorem lookup?_of_mem_signatures {scripts : List Table.Script} {signature : Signature}
    (h : signature ∈ (scripts.foldl Table.scan .empty).signatures) :
    IsWord signature.name.toList ∧
      (scripts.foldl Table.scan .empty).lookup? signature.name = some signature := by
  obtain ⟨script, -, hDeclared⟩ := Table.exists_declared_of_mem_signatures h
  refine ⟨(Table.name_of_declared hDeclared).1, ?_⟩
  rw [Table.lookup?, ← Table.key_of_declared hDeclared]
  exact Table.atKey?_of_mem h

/-- Help behind complete arguments. Every function of scanned scripts has a word for a name and is
found by it. Help at the end of a call of such a function shows its signature, and the parameter
reached is that after the pieces of the arguments. Pieces that name no parameter count unless they
hold a colon; without colons these are the arguments and the commas in them. -/
theorem help_counts_pieces :
    (∀ scripts : List Table.Script,
      let table := scripts.foldl Table.scan .empty
      ∀ signature ∈ table.signatures,
        IsWord signature.name.toList ∧ table.lookup? signature.name = some signature) ∧
    ∀ (document : Document) (table : Table) (language name : String) (signature : Signature)
      (args : List (List Char)),
      document.language = some language → table.lookup? name = some signature →
      IsWord name.toList → (∀ argument ∈ args, IsArgument argument) →
      document.textBeforeCursor = callText name.toList args →
      let names := signature.parameterNames
      let pieces := args.flatMap (List.splitOn ',')
      (document.signatureHelp table language).1 = some ⟨[signature], 0, reached names pieces⟩ ∧
      ((∀ piece ∈ pieces, ∀ start ∈ beforeColon? piece, matchParameter? names start = none) →
        reached names pieces = pieces.countP (':' ∉ ·)) ∧
      ((∀ argument ∈ args, ':' ∉ argument) →
        reached names pieces = args.length + args.flatten.count ',' ∧
        (reached names pieces = args.length ↔ ∀ argument ∈ args, ',' ∉ argument)) := by
  refine ⟨fun scripts _ hMem => lookup?_of_mem_signatures hMem, ?_⟩
  intro document table language name signature args hLanguage hLookup hName hArgs hText names pieces
  have hClosed : ∀ argument ∈ args, Closed (fun _ => True) argument := by
    intro argument hArgument
    exact (hArgs argument hArgument).closed.mono fun _ _ => trivial
  refine ⟨?_, reached_of_unnamed, ?_⟩
  · rw [Document.signatureHelp, if_neg (not_not.mpr hLanguage), hText,
      context?_callText hName hClosed]
    simp only [String.ofList_toList, hLookup, String.toList_ofList, activeParameter_arguments]
    rfl
  · intro hColon
    have hReached : reached names pieces = args.length + args.flatten.count ',' :=
      reached_of_no_colon hColon
    refine ⟨hReached, ?_⟩
    rw [hReached, Nat.add_eq_left, List.count_eq_zero, List.mem_flatten]
    constructor
    · intro hNone argument hArgument hComma
      exact hNone ⟨argument, hArgument, hComma⟩
    · rintro hNone ⟨argument, hArgument, hComma⟩
      exact hNone argument hArgument hComma

/-- Behind a call with two arguments the third parameter is reached. -/
theorem help_behind_call_of_two :
    let script : Table.Script := ("class A\n\x7b\nvoid Fire(int a, int b, int c);\n\x7d", none)
    let table := [script].foldl Table.scan .empty
    let document : Document := ⟨"fire(max(1, 2), ", 0, none, some "zscript", none⟩
    let argument := ['m', 'a', 'x', '(', '1', ',', ' ', '2', ')']
    IsArgument argument ∧ document.textBeforeCursor = callText "fire".toList [argument] ∧
      ∃ signature, table.lookup? "fire" = some signature ∧
        (document.signatureHelp table "zscript").1 = some ⟨[signature], 0, 2⟩ := by
  intro script table document argument
  have hArgument : IsArgument argument := by
    have hInner : Closed (fun _ => True) ['1', ',', ' ', '2'] :=
      closed_of_unmarked (fun _ _ => trivial) (by simp)
    exact isArgument_call (show IsWord ['m', 'a', 'x'] by decide) hInner (by decide)
  have hText : document.textBeforeCursor = callText "fire".toList [argument] := by decide +kernel
  obtain ⟨signature, hLookup⟩ : ∃ signature, table.lookup? "fire" = some signature :=
    Option.isSome_iff_exists.mp (by decide +kernel)
  obtain ⟨hHelp, -, hCount⟩ := help_counts_pieces.2 document table "zscript" "fire" signature
    [argument] rfl hLookup (by decide) (by simpa using hArgument) hText
  rw [(hCount (by decide)).1] at hHelp
  exact ⟨hArgument, hText, signature, hLookup, hHelp⟩

/-- Behind `f(g(1, 2), ` help shows the third parameter, not the second. -/
theorem nested_comma_counted :
    ¬ ∀ (document : Document) (table : Table) (language name : String) (signature : Signature)
      (args : List (List Char)),
      document.language = some language → table.lookup? name = some signature →
      IsWord name.toList → (∀ argument ∈ args, IsArgument argument) →
      document.textBeforeCursor = callText name.toList args →
      (document.signatureHelp table language).1 = some ⟨[signature], 0, args.length⟩ := by
  intro hAll
  let table := Table.empty.scan ("class A\n\x7b\n  void f(int a, int b, int c);\n\x7d", none)
  let document : Document := ⟨"f(g(1, 2), ", 0, some 11, some "zscript", none⟩
  have hArgument : IsArgument ['g', '(', '1', ',', ' ', '2', ')'] := by
    have hInner : Closed (fun _ => True) ['1', ',', ' ', '2'] :=
      closed_of_unmarked (fun _ _ => trivial) (by simp)
    exact isArgument_call (show IsWord ['g'] by decide) hInner (by decide)
  obtain ⟨signature, hLookup⟩ : ∃ signature, table.lookup? "f" = some signature :=
    Option.isSome_iff_exists.mp (by decide +kernel)
  have hHelp := hAll document table "zscript" "f" signature [['g', '(', '1', ',', ' ', '2', ')']]
    rfl hLookup (by decide) (by simpa using hArgument) (by decide +kernel)
  have hActive : (document.signatureHelp table "zscript").1.map (·.activeParameter) = some 2 := by
    decide +kernel
  simp [hHelp] at hActive

end SignatureIndex.Call
