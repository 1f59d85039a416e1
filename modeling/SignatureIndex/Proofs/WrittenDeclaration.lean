import SignatureIndex.Proofs.Declaration

/-! Declarations as they are written. A written declaration has qualifiers, a return type of word
groups, a name, parameters and a terminator, with blanks of any kind between them; reading the line
gives back exactly these. On any line, a declaration is read exactly if the line holds a name behind
blanks, parentheses behind it, and a terminator behind these. -/
namespace SignatureIndex.Declaration

open Text

section Tokens

variable {before : Option Char} {rest : List Char}

/-- At least one blank. -/
structure Gap where
  text : List Char
  some : text ≠ []
  blank : AllBlank text

/-- Qualifiers, each with the blanks behind it. -/
def runText (items : List (Qualifier × Gap)) : List Char :=
  items.flatMap fun (qualifier, gap) => qualifier.text ++ gap.text

/-- The qualifiers themselves. -/
def spellings (items : List (Qualifier × Gap)) : List String :=
  items.map fun (qualifier, _) => String.ofList qualifier.text

theorem runText_cons (qualifier : Qualifier) (gap : Gap) (items : List (Qualifier × Gap)) :
    runText ((qualifier, gap) :: items) = qualifier.text ++ (gap.text ++ runText items) :=
  List.append_assoc ..

/-- The qualifier that is taken at a place. -/
def tokenAt? (place : Cursor) : Option (String × Cursor) :=
  (Pattern.either noteQualifier word).run place fun after =>
    some (String.ofList (place.upTo after), after)

theorem allBlank_nil : AllBlank [] := fun _ hMem => absurd hMem List.not_mem_nil

theorem Gap.wordEnds (gap : Gap) (rest : List Char) : WordEnds (gap.text ++ rest) :=
  gap.blank.wordEnds gap.some

theorem WordEnds.not_word (h : WordEnds rest) : ∀ c ∈ rest.head?, ¬isWordChar c = true := by
  obtain ⟨mark, more, rfl, hMark, -⟩ := h
  rintro _ ⟨⟩
  exact hMark

theorem Qualifier.exists_head (qualifier : Qualifier) :
    ∃ c more, qualifier.text = c :: more ∧ isWordChar c = true := by
  obtain ⟨hSome, hWord⟩ := qualifier.isWord_lead
  obtain ⟨c, more, hLead⟩ := List.exists_cons_of_ne_nil hSome
  exact ⟨c, more ++ qualifier.arguments, by rw [text, hLead, List.cons_append],
    hWord c (by simp [hLead])⟩

/-- A qualifier with arguments is no word. -/
theorem Qualifier.not_isWord (note : Qualifier) (h : note.arguments ≠ []) : ¬IsWord note.text := by
  obtain ⟨mark, more, hMore, hMark, -⟩ : ∃ mark more, note.arguments ++ [] = mark :: more ∧
      ¬isWordChar mark = true ∧ _ := note.exists_mark fun hNil => absurd hNil h
  rw [List.append_nil] at hMore
  intro hWord
  exact hMark (hWord.2 mark (by simp [text, hMore]))

/-- Nothing is taken where no word starts. -/
theorem tokenAt?_eq_none (h : ∀ c ∈ rest.head?, ¬isWordChar c = true) :
    tokenAt? ⟨before, rest⟩ = none := by
  refine Pattern.run_eq_none_of_not_matches (fun taken after hText hMatch => ?_) _
  have hHead : ∃ c more, taken = c :: more ∧ isWordChar c = true := by
    rcases hMatch with hNote | hWord
    · obtain ⟨note, -, rfl⟩ := matches_noteQualifier.mp hNote
      exact note.exists_head
    · obtain ⟨hSome, hChars⟩ := Pattern.matches_atLeastOnce_one.mp hWord
      obtain ⟨c, more, rfl⟩ := List.exists_cons_of_ne_nil hSome
      exact ⟨c, more, rfl, hChars c List.mem_cons_self⟩
  obtain ⟨c, more, rfl, hc⟩ := hHead
  exact h c (by simp [hText]) hc

/-- A qualifier is taken as it is written. -/
theorem tokenAt?_qualifier (before : Option Char) (qualifier : Qualifier) (hRest : WordEnds rest) :
    tokenAt? ⟨before, qualifier.text ++ rest⟩ =
      some (String.ofList qualifier.text, Cursor.past before qualifier.text rest) := by
  have hUpTo : Cursor.upTo ⟨before, qualifier.text ++ rest⟩
      (Cursor.past before qualifier.text rest) = qualifier.text := by
    simp [Cursor.upTo, Cursor.past]
  -- a note that is taken there is this qualifier
  have hSame {taken after : List Char} (hText : qualifier.text ++ rest = taken ++ after)
      (hMatch : noteQualifier.Matches before taken after) : qualifier.text = taken := by
    obtain ⟨note, hNote, rfl⟩ := matches_noteQualifier.mp hMatch
    exact Qualifier.text_unique (fun _ => hRest) (fun hNil => absurd hNil hNote) hText
  unfold tokenAt?
  rw [Pattern.run]
  by_cases hNone : qualifier.arguments = []
  · have hWord : IsWord qualifier.text := by
      rw [Qualifier.text, hNone, List.append_nil]
      exact qualifier.isWord_lead
    rw [Pattern.run_eq_none_of_not_matches fun taken after hText hMatch => ?_]
    · refine Pattern.run_atLeastOnce_one hWord.1 hWord.2 hRest.not_word ?_
      rw [hUpTo]
    · obtain ⟨note, hNote, rfl⟩ := matches_noteQualifier.mp hMatch
      exact note.not_isWord hNote (hSame hText hMatch ▸ hWord)
  · have hNote : noteQualifier.Matches before qualifier.text rest :=
      matches_noteQualifier.mpr ⟨qualifier, hNone, rfl⟩
    rw [Pattern.run_eq_some hNote (by rw [hUpTo]) ?_]
    intro taken after result hText hMatch hResult
    obtain rfl := hSame hText hMatch
    obtain rfl : rest = after := List.append_cancel_left hText
    rw [hUpTo] at hResult
    exact (Option.some.inj hResult).symm

/-- Blanks between qualifiers are passed over. -/
theorem firstAt_blanks {space : List Char} (hSpace : AllBlank space) :
    Cursor.firstAt tokenAt? before (space ++ rest) =
      Cursor.firstAt tokenAt? (space.getLast?.or before) rest := by
  induction space generalizing before with
  | nil => rfl
  | cons b more ih =>
      obtain ⟨hb, hMore⟩ := List.forall_mem_cons.mp hSpace
      have hNone : tokenAt? ⟨before, b :: (more ++ rest)⟩ = none := by
        refine tokenAt?_eq_none ?_
        rintro _ ⟨⟩ hWord
        exact not_isAsciiBlank_of_word hWord hb
      rw [List.cons_append, Cursor.firstAt, hNone]
      refine (ih hMore).trans ?_
      rw [List.getLast?_cons]
      cases more.getLast? <;> rfl

/-- The qualifiers of a run are found one by one. -/
theorem findAll_runText (items : List (Qualifier × Gap)) {space : List Char}
    (hSpace : AllBlank space) :
    Cursor.findAll ⟨before, space ++ runText items⟩ tokenAt? =
      spellings items := by
  induction items generalizing before space with
  | nil =>
      rw [Cursor.findAll, Cursor.findFirst, firstAt_blanks hSpace]
      have hNone : Cursor.firstAt tokenAt? (space.getLast?.or before) (runText []) = none :=
        tokenAt?_eq_none (by simp)
      rw [hNone]
      rfl
  | cons item items ih =>
      obtain ⟨qualifier, gap⟩ := item
      have hFirst := tokenAt?_qualifier (space.getLast?.or before) qualifier
        (gap.wordEnds (runText items))
      rw [runText_cons, Cursor.findAll, Cursor.findFirst, firstAt_blanks hSpace,
        Pattern.firstAt_of_some hFirst]
      obtain ⟨c, more, hHead, -⟩ := qualifier.exists_head
      have hLess : (Cursor.past (space.getLast?.or before) qualifier.text
          (gap.text ++ runText items)).rest.length <
          (space ++ (qualifier.text ++ (gap.text ++ runText items))).length := by
        simp only [Cursor.past, hHead, List.length_append, List.length_cons]
        omega
      simp only [if_pos hLess]
      exact congrArg _ (ih gap.blank)

/-- The qualifiers of a run are found as they are written. -/
theorem qualifierTokens_runText (items : List (Qualifier × Gap)) :
    qualifierTokens (runText items) = spellings items :=
  findAll_runText items allBlank_nil

end Tokens

section Run

variable {β : Type} {accept : Cursor → Option β} {result : β} {before : Option Char}
  {rest : List Char}

/-- The text behind the blanks of a qualifier does not start with a blank. -/
theorem head?_runText (items : List (Qualifier × Gap))
    (hRest : ∀ c ∈ rest.head?, ¬isAsciiBlank c = true) :
    ∀ c ∈ (runText items ++ rest).head?, ¬isAsciiBlank c = true := by
  cases items with
  | nil => exact hRest
  | cons item items =>
      obtain ⟨c, more, hHead, hc⟩ := item.1.exists_head
      rw [runText_cons, hHead]
      rintro _ ⟨⟩
      exact not_isAsciiBlank_of_word hc

/-- A qualifier is taken with all the blanks behind it. -/
theorem run_qualifierItem (qualifier : Qualifier) (gap : Gap)
    (hBefore : ∀ c ∈ before, ¬isWordChar c = true)
    (hRest : ∀ c ∈ rest.head?, ¬isAsciiBlank c = true)
    (hAccept : accept (Cursor.past before (qualifier.text ++ gap.text) rest) = some result) :
    qualifierItem.run ⟨before, qualifier.text ++ (gap.text ++ rest)⟩ accept = some result := by
  have hEdge : isBoundary isWordChar before (qualifier.text ++ (gap.text ++ rest)).head? =
      true := by
    obtain ⟨c, more, hHead, hc⟩ := qualifier.exists_head
    have hNone : before.any isWordChar = false := by
      cases before with
      | none => rfl
      | some b => simpa using hBefore b rfl
    simp [isBoundary, hNone, hHead, hc]
  rw [Cursor.past_append] at hAccept
  simp only [qualifierItem, Pattern.all, Pattern.run, hEdge, if_true]
  refine Pattern.run_eq_some (matches_qualifier.mpr ⟨qualifier, rfl⟩)
    (Pattern.run_atLeastOnce_one gap.some gap.blank hRest hAccept) ?_
  -- another qualifier would have blanks behind it too
  intro taken after result' hText hMatch hResult
  obtain ⟨other, rfl⟩ := matches_qualifier.mp hMatch
  obtain ⟨blanks, after, rfl, hBlanks, -⟩ := Pattern.run_sound _ _ _ _ hResult
  obtain ⟨hSome, hBlank⟩ := Pattern.matches_atLeastOnce_one.mp hBlanks
  have hSame : qualifier.text = other.text := Qualifier.text_unique
    (fun _ => gap.wordEnds rest) (fun _ => AllBlank.wordEnds hBlank hSome) hText
  rw [← hSame] at hText hResult
  rw [← List.append_cancel_left hText] at hResult
  have hGreedy := Pattern.run_atLeastOnce_one gap.some gap.blank hRest hAccept
  exact Option.some.inj (hResult.symm.trans hGreedy)

/-- Behind a gap, no word goes on. -/
theorem Gap.not_isWord_last (gap : Gap) (front : List Char) :
    ∀ c ∈ (front ++ gap.text).getLast?.or before, ¬isWordChar c = true := by
  intro c hc hWord
  obtain ⟨blanks, b, hGap⟩ := (List.eq_nil_or_concat' gap.text).resolve_left gap.some
  rw [hGap, ← List.append_assoc, List.getLast?_concat, Option.some_or] at hc
  cases hc
  exact not_isAsciiBlank_of_word hWord (gap.blank c (by simp [hGap]))

/-- A repetition that is long enough takes every qualifier of a run. -/
theorem repeatAlong_qualifierItem (items : List (Qualifier × Gap))
    (hBefore : ∀ c ∈ before, ¬isWordChar c = true)
    (hRest : ∀ c ∈ rest.head?, ¬isAsciiBlank c = true)
    (hStop : ∀ before taken after, rest = taken ++ after →
      ¬ qualifierItem.Matches before taken after)
    (hAccept : accept (Cursor.past before (runText items) rest) = some result)
    (bound : List Char) (hBound : (runText items).length ≤ bound.length) :
    Pattern.repeatAlong (fun next resume => qualifierItem.run next resume) bound
      ⟨before, runText items ++ rest⟩ accept = some result := by
  induction items generalizing before bound with
  | nil =>
      have hNone (resume : Cursor → Option β) :
          qualifierItem.run ⟨before, rest⟩ resume = none :=
        Pattern.run_eq_none_of_not_matches (hStop before) resume
      cases bound with
      | nil => exact hAccept
      | cons c bound =>
          simp only [Pattern.repeatAlong, runText, List.flatMap_nil, List.nil_append, hNone]
          exact hAccept
  | cons item items ih =>
      obtain ⟨qualifier, gap⟩ := item
      obtain ⟨c, more, hHead, -⟩ := qualifier.exists_head
      rw [runText_cons] at hAccept hBound ⊢
      rw [← List.append_assoc, Cursor.past_append] at hAccept
      simp only [hHead, List.length_append, List.length_cons] at hBound
      cases bound with
      | nil => simp at hBound
      | cons d bound =>
          rw [List.length_cons] at hBound
          have hLater := ih (gap.not_isWord_last qualifier.text) hAccept bound (by omega)
          have hFirst : qualifierItem.run
              ⟨before, qualifier.text ++ (gap.text ++ (runText items ++ rest))⟩
              (fun next => Pattern.repeatAlong (fun next resume => qualifierItem.run next resume)
                bound next accept) = some result :=
            run_qualifierItem qualifier gap hBefore (head?_runText items hRest) hLater
          simp only [Pattern.repeatAlong, List.append_assoc, hFirst]

/-- All qualifiers of a run are taken. -/
theorem run_qualifierRun (items : List (Qualifier × Gap))
    (hBefore : ∀ c ∈ before, ¬isWordChar c = true)
    (hRest : ∀ c ∈ rest.head?, ¬isAsciiBlank c = true)
    (hStop : ∀ before taken after, rest = taken ++ after →
      ¬ qualifierItem.Matches before taken after)
    (hAccept : accept (Cursor.past before (runText items) rest) = some result) :
    qualifierRun.run ⟨before, runText items ++ rest⟩ accept = some result :=
  repeatAlong_qualifierItem items hBefore hRest hStop hAccept _ (by simp)

end Run

section Qualified

variable {before : Option Char} {rest : List Char}

/-- Qualifiers in front of a declaration that has none are read with it. -/
theorem readAt?_qualified (items : List (Qualifier × Gap)) {declaration : Declaration}
    (hBefore : ∀ c ∈ before, ¬isWordChar c = true)
    (hRest : ∀ c ∈ rest.head?, ¬isAsciiBlank c = true)
    (hStop : ∀ before taken after, rest = taken ++ after →
      ¬ qualifierItem.Matches before taken after)
    (hRead : readAt? ⟨(runText items).getLast?.or before, rest⟩ = some declaration) :
    readAt? ⟨before, runText items ++ rest⟩ = some { declaration with
      qualifiers := spellings items } := by
  unfold readAt? readTyped? at hRead ⊢
  refine run_qualifierRun items hBefore hRest hStop ?_
  -- without qualifiers, the rest is read from the same place on
  obtain ⟨taken, after, hText, hTaken, hRead⟩ := Pattern.run_sound _ _ _ _ hRead
  have hNone : taken = [] := by
    change Pattern.Repeats _ _ _ _ at hTaken
    cases hTaken with
    | done => rfl
    | more first others => exact absurd first (hStop _ _ _ (hText.trans (List.append_assoc ..)))
  subst hNone
  obtain rfl : rest = after := hText
  have hTokens : qualifierTokens (Cursor.upTo ⟨before, runText items ++ rest⟩
      (Cursor.past before (runText items) rest)) = spellings items := by
    rw [← qualifierTokens_runText]
    simp [Cursor.upTo, Cursor.past]
  refine Eq.trans ?_ (congrArg (Option.map fun found : Declaration => { found with
    qualifiers := spellings items }) hRead)
  refine Pattern.run_map (fun typeEnd => ?_) _ _
  refine Pattern.run_map (fun nameStart => ?_) _ _
  refine Pattern.run_map (fun nameEnd => ?_) _ _
  refine Pattern.run_map (fun bodyStart => ?_) _ _
  refine Pattern.run_map (fun bodyEnd => ?_) _ _
  refine Pattern.run_map (fun last => ?_) _ _
  cases last.rest with
  | nil => rfl
  | cons c more =>
      by_cases hc : isTerminator c = true
      · simp only [hc, if_true, hTokens]
        rfl
      · simp only [hc]
        rfl

end Qualified

section Written

/-- A word. -/
structure Word where
  text : List Char
  isWord : IsWord text

/-- Words with blanks between them. -/
structure WordGroup where
  first : Word
  others : List (Gap × Word)

def WordGroup.text (group : WordGroup) : List Char :=
  group.first.text ++ group.others.flatMap fun (gap, word) => gap.text ++ word.text

/-- Word groups with commas between them, and maybe blanks around these. -/
structure ReturnType where
  first : WordGroup
  others : List (Space × Space × WordGroup)

def ReturnType.text (type : ReturnType) : List Char :=
  type.first.text ++ type.others.flatMap fun (left, right, group) =>
    left.text ++ ',' :: (right.text ++ group.text)

/-- A name behind blanks, parameters in parentheses, maybe a mark that the function changes nothing,
and a terminator. -/
structure Call where
  gap : Gap
  name : Word
  space : Space
  params : List Char
  closing : Space
  constant : Bool
  last : Space
  terminator : Char
  closed : ')' ∉ params
  terminates : terminator = ';' ∨ terminator = '\x7b'

/-- What stands between the closing parenthesis and the terminator. -/
def Call.ending (call : Call) : List Char :=
  call.closing.text ++ ((if call.constant then "const".toList else []) ++ call.last.text)

def Call.text (call : Call) : List Char :=
  call.gap.text ++ (call.name.text ++ (call.space.text ++ '(' :: (call.params ++
    ')' :: (call.ending ++ [call.terminator]))))

/-- A declaration as written. The parameters are written with blanks around them. -/
structure Written where
  qualifiers : List (Qualifier × Gap)
  returnType : ReturnType
  call : Call
  indent : Space
  params : List Char
  outdent : Space
  plain : String.ofList returnType.first.first.text ∉ keywords
  trimmed : trim params = params
  inside : call.params = indent.text ++ (params ++ outdent.text)

def Written.text (written : Written) : List Char :=
  runText written.qualifiers ++ (written.returnType.text ++ written.call.text)

def Written.declaration (written : Written) : Declaration where
  qualifiers := spellings written.qualifiers
  returnType := String.ofList written.returnType.text
  name := String.ofList written.call.name.text
  params := String.ofList written.params
  terminator := written.call.terminator

variable {before : Option Char} {after : List Char}

/-- A written group of words is matched. -/
theorem matches_wordGroup (group : WordGroup) : wordGroup.Matches before group.text after := by
  refine ⟨_, _, rfl, Pattern.matches_atLeastOnce_one.mpr group.first.isWord,
    Pattern.repeats_flatMap (fun item before after => ?_) _ _ _⟩
  obtain ⟨gap, word⟩ := item
  exact ⟨_, _, rfl, Pattern.matches_atLeastOnce_one.mpr ⟨gap.some, gap.blank⟩,
    Pattern.matches_atLeastOnce_one.mpr word.isWord⟩

/-- A written return type is matched. -/
theorem matches_returnType (type : ReturnType) :
    returnTypeText.Matches before type.text after := by
  refine .inl ⟨_, _, rfl, matches_wordGroup type.first,
    Pattern.repeats_flatMap (fun item before after => ?_) _ _ _⟩
  obtain ⟨left, right, group⟩ := item
  exact ⟨_, _, rfl, matches_blanks.mpr left.blank, [','], _, rfl, Pattern.matches_text.mpr rfl, _,
    _, rfl, matches_blanks.mpr right.blank, matches_wordGroup group⟩

/-- The parts of a declaration that ends in a call. -/
def Call.parts (call : Call) (qualifiers returnType after : List Char) : Parts :=
  ⟨qualifiers, returnType, call.gap.text, call.name.text, call.space.text, call.params, call.ending,
    call.terminator, after⟩

/-- The parts of a call make up its text. -/
theorem Call.text_parts (call : Call) (qualifiers returnType after : List Char) :
    (call.parts qualifiers returnType after).text =
      qualifiers ++ (returnType ++ (call.text ++ after)) := by
  simp [parts, Parts.text, Parts.rest, Parts.call, text]

/-- A call makes up valid parts with any return type that is matched before it. -/
theorem Call.valid (call : Call) {returnType : List Char}
    (hType : returnTypeText.Matches before returnType (call.parts [] returnType after).rest) :
    (call.parts [] returnType after).Valid before where
  qualifiers := .done _ _
  returnType := hType
  gap := ⟨call.gap.some, call.gap.blank⟩
  name := call.name.isWord
  space := call.space.blank
  params := call.closed
  ending := by
    refine ⟨_, _, _, rfl, call.closing.blank, ?_, call.last.blank⟩
    cases call.constant with
    | true => exact .inl rfl
    | false => exact .inr rfl
  terminator := by
    rcases call.terminates with hMark | hMark <;> simp [parts, isTerminator, hMark]

/-- The first word of a return type ends where more words, a comma or the name follow. -/
theorem ReturnType.exists_word (type : ReturnType) {rest : List Char} (hRest : WordEnds rest) :
    ∃ more, type.text ++ rest = type.first.first.text ++ more ∧ WordEnds more := by
  obtain ⟨⟨first, words⟩, groups⟩ := type
  refine ⟨_, (List.append_assoc _ _ rest).trans (List.append_assoc ..), ?_⟩
  cases words with
  | cons item words =>
      simp only [List.flatMap_cons, List.append_assoc]
      exact item.1.wordEnds _
  | nil =>
      cases groups with
      | nil => exact hRest
      | cons item groups =>
          obtain ⟨left, right, group⟩ := item
          simp only [List.flatMap_nil, List.flatMap_cons, List.nil_append, List.append_assoc,
            List.cons_append]
          cases hLeft : left.text with
          | nil => exact ⟨',', _, rfl, by decide, by decide⟩
          | cons b blanks => exact (hLeft ▸ left.blank).wordEnds (List.cons_ne_nil b blanks)

/-- Blanks around parameters are trimmed away. -/
theorem trim_around {params : List Char} (indent outdent : Space) (h : trim params = params) :
    trim (indent.text ++ (params ++ outdent.text)) = params := by
  have hBlank (space : Space) : ∀ c ∈ space.text, isBlank c = true := by
    intro c hc
    simp [isBlank, space.blank c hc]
  refine trim_between (hBlank indent) (hBlank outdent) ?_ ?_
  · rw [← h]
    exact head?_trim
  · rw [← h]
    exact getLast?_trim

/-- What is written is read: the qualifiers, the return type, the name, the parameters and the
terminator of a declaration are exactly those that were written, whatever follows it. -/
theorem read?_written (written : Written) (after : List Char) :
    read? (written.text ++ after) = some written.declaration := by
  let parts := written.call.parts [] written.returnType.text after
  obtain ⟨more, hMore, hEnds⟩ := written.returnType.exists_word
    (written.call.gap.wordEnds (parts.name ++ parts.call))
  have hWord := written.returnType.first.first.isWord
  have hText : parts.text = written.returnType.first.first.text ++ more := hMore
  have hPlain : parts.Plain := ⟨rfl, _, more, hText, hWord, written.plain, hEnds⟩
  -- no qualifier stands at the start of the return type
  have hStop (before : Option Char) (taken rest : List Char) (hRest : parts.text = taken ++ rest) :
      ¬ qualifierItem.Matches before taken rest :=
    not_matches_qualifierItem hWord written.plain hEnds (hRest.symm.trans hText)
  have hHead : ∀ c ∈ parts.text.head?, ¬isAsciiBlank c = true := by
    obtain ⟨c, others, hFirst⟩ := List.exists_cons_of_ne_nil hWord.1
    rw [hText, hFirst]
    rintro _ ⟨⟩
    exact not_isAsciiBlank_of_word (hWord.2 c (by simp [hFirst]))
  have hStart : ∀ c ∈ (none : Option Char), ¬isWordChar c = true := by simp
  have hRead := readAt?_qualified written.qualifiers hStart hHead hStop
    (readAt?_plain (written.call.valid (matches_returnType _)) hPlain)
  have hLine : written.text ++ after = runText written.qualifiers ++ parts.text := by
    rw [written.call.text_parts, Written.text]
    simp
  rw [read?_eq_findFirst, hLine]
  refine Pattern.firstAt_of_some (hRead.trans ?_)
  have hParams : trim written.call.params = written.params := by
    rw [written.inside, trim_around _ _ written.trimmed]
  change some (Declaration.mk _ _ _ (String.ofList (trim written.call.params)) _) = _
  rw [hParams]
  rfl

/-- A function with a qualifier, two return types and a parameter. -/
def pairFunction : Written where
  qualifiers := [(.keyword "native" (by decide), ⟨[' '], by decide, by decide⟩)]
  returnType := ⟨⟨⟨"bool".toList, by decide⟩, []⟩,
    [(⟨[' '], by decide⟩, ⟨[], by decide⟩, ⟨⟨"string".toList, by decide⟩, []⟩)]⟩
  call := ⟨⟨['\t'], by decide, by decide⟩, ⟨"Pair".toList, by decide⟩, ⟨[' '], by decide⟩,
    " int a".toList, ⟨[], by decide⟩, true, ⟨[' '], by decide⟩, ';', by decide, .inl rfl⟩
  indent := ⟨[' '], by decide⟩
  params := "int a".toList
  outdent := ⟨[], by decide⟩
  plain := by decide
  trimmed := by decide
  inside := by decide

example : pairFunction.text = "native bool ,string\tPair ( int a)const ;".toList ∧
    pairFunction.declaration = ⟨["native"], "bool ,string", "Pair", "int a", ';'⟩ := by
  decide +kernel

end Written

section Grammar

/-- What a line may hold of a declaration: any text, a call, and any text. -/
structure Placed where
  front : List Char
  call : Call
  after : List Char

def Placed.line (placed : Placed) : List Char :=
  placed.front ++ (placed.call.text ++ placed.after)

/-- Valid parts end in a call. -/
theorem Parts.Valid.exists_call {parts : Parts} {before : Option Char} (h : parts.Valid before) :
    ∃ call : Call, parts = call.parts parts.qualifiers parts.returnType parts.after := by
  have hMark : parts.terminator = ';' ∨ parts.terminator = '\x7b' := by
    simpa [isTerminator] using h.terminator
  obtain ⟨first, word, last, hEnding, hFirst, hWord, hLast⟩ := h.ending
  let call (constant : Bool) : Call :=
    ⟨⟨parts.gap, h.gap.1, h.gap.2⟩, ⟨parts.name, h.name⟩, ⟨parts.space, h.space⟩, parts.params,
      ⟨first, hFirst⟩, constant, ⟨last, hLast⟩, parts.terminator, h.params, hMark⟩
  obtain ⟨qualifiers, returnType, gap, name, space, params, ending, terminator, after⟩ := parts
  cases hEnding
  rcases hWord with rfl | rfl
  · exact ⟨call true, rfl⟩
  · exact ⟨call false, rfl⟩

/-- What is read from a line is a call in it. -/
theorem exists_placed {line : List Char} {declaration : Declaration}
    (h : read? line = some declaration) : ∃ placed : Placed, line = placed.line ∧
      declaration.name = String.ofList placed.call.name.text ∧
      declaration.params = String.ofList (trim placed.call.params) ∧
      declaration.terminator = placed.call.terminator ∧
      ∃ before, placed.front = before ++ declaration.returnType.toList := by
  obtain ⟨before, front, parts, rfl, hValid, rfl⟩ := read?_sound h
  obtain ⟨call, hCall⟩ := hValid.exists_call
  refine ⟨⟨front ++ parts.qualifiers ++ parts.returnType, call, parts.after⟩, ?_, ?_, ?_, ?_,
    front ++ parts.qualifiers, ?_⟩
  · rw [hCall, call.text_parts, Placed.line]
    simp [Call.parts]
  · rw [hCall]
    rfl
  · rw [hCall]
    rfl
  · rw [hCall]
    rfl
  · rw [Parts.declaration, String.toList_ofList]

/-- Where a line holds a call, a declaration is read. -/
theorem read?_placed (placed : Placed) : (read? placed.line).isSome := by
  have hValid : (placed.call.parts [] [] placed.after).Valid placed.front.getLast? :=
    placed.call.valid (.inr rfl)
  rw [read?_eq_findFirst]
  refine (Pattern.firstAt_isSome_iff ..).mpr ⟨placed.front, _, rfl, ?_⟩
  have hRead := readAt?_complete hValid
  rw [placed.call.text_parts] at hRead
  rw [Cursor.past, Cursor.start, Option.or_none]
  exact hRead

/-- A declaration is read from a line exactly if the line holds a call, and then its name, its
parameters and its terminator are those of a call whose name stands behind the return type and
blanks. -/
theorem read?_isSome_iff_call (line : List Char) :
    ((read? line).isSome ↔ ∃ placed : Placed, line = placed.line) ∧
    ∀ declaration, read? line = some declaration → ∃ placed : Placed, line = placed.line ∧
      declaration.name = String.ofList placed.call.name.text ∧
      declaration.params = String.ofList (trim placed.call.params) ∧
      declaration.terminator = placed.call.terminator ∧
      ∃ before, placed.front = before ++ declaration.returnType.toList := by
  refine ⟨⟨fun hSome => ?_, ?_⟩, fun declaration => exists_placed⟩
  · obtain ⟨declaration, hRead⟩ := Option.isSome_iff_exists.mp hSome
    obtain ⟨placed, hLine, -⟩ := exists_placed hRead
    exact ⟨placed, hLine⟩
  · rintro ⟨placed, rfl⟩
    exact read?_placed placed

/-- A line whose first call has no terminator. -/
theorem read?_second_call :
    read? "x = f(1) + int g( 2 ) const;".toList = some ⟨[], "int", "g", "2", ';'⟩ ∧
      ∃ placed : Placed, "x = f(1) + int g( 2 ) const;".toList = placed.line ∧
        "g" = String.ofList placed.call.name.text ∧
        ∃ before, placed.front = before ++ "int".toList := by
  have hRead : read? "x = f(1) + int g( 2 ) const;".toList =
      some ⟨[], "int", "g", "2", ';'⟩ := by decide +kernel
  obtain ⟨placed, hLine, hName, -, -, hType⟩ := (read?_isSome_iff_call _).2 _ hRead
  exact ⟨hRead, placed, hLine, hName, hType⟩

end Grammar

end SignatureIndex.Declaration
