import SignatureIndex.Proofs.LogicalLine
import SignatureIndex.Proofs.WrittenDeclaration

/-! The label of a signature is a declaration of its own: with a semicolon behind it, it declares
the same function again, without qualifiers. Its return type may start with a qualifier, which the
search has left there because nothing else can be the type; read again, it is left there once
more. -/
namespace SignatureIndex.Declaration

open Text

section Shapes

variable {before : Option Char} {taken after rest : List Char}

/-- A qualifier starts a word exactly if no word character stands before it. -/
theorem isBoundary_qualifier (qualifier : Qualifier) :
    isBoundary isWordChar before (qualifier.text ++ rest).head? = true ↔
      ∀ c ∈ before, ¬isWordChar c = true := by
  obtain ⟨c, more, hHead, hc⟩ := qualifier.exists_head
  cases before with
  | none => simp [isBoundary, hHead, hc]
  | some b => simp [isBoundary, hHead, hc]

/-- Text taken as qualifiers is a run of them that starts a word. -/
theorem matches_qualifierRun :
    qualifierRun.Matches before taken after ↔
      ∃ items, taken = runText items ∧ (items ≠ [] → ∀ c ∈ before, ¬isWordChar c = true) := by
  constructor
  · intro h
    change Pattern.Repeats _ before taken after at h
    induction h with
    | done => exact ⟨[], rfl, fun hNil => absurd rfl hNil⟩
    | more first _ ih =>
        obtain ⟨hEdge, written, gap, rfl, hSome, hBlank⟩ := matches_qualifierItem.mp first
        obtain ⟨items, rfl, -⟩ := ih
        rw [List.append_assoc] at hEdge
        refine ⟨(written, ⟨gap, hSome, hBlank⟩) :: items, ?_, fun _ => ?_⟩
        · rw [runText_cons, List.append_assoc]
        · exact (isBoundary_qualifier written).mp hEdge
  · rintro ⟨items, rfl, hBefore⟩
    induction items generalizing before with
    | nil => exact .done before after
    | cons item items ih =>
        obtain ⟨qualifier, gap⟩ := item
        rw [runText_cons, ← List.append_assoc]
        refine Pattern.Repeats.more (matches_qualifierItem.mpr
          ⟨?_, qualifier, gap.text, rfl, gap.some, gap.blank⟩)
          (ih fun _ => gap.not_isWord_last qualifier.text)
        rw [List.append_assoc]
        exact (isBoundary_qualifier qualifier).mpr (hBefore (List.cons_ne_nil _ _))

/-- What a word group matches is a written group. -/
theorem exists_wordGroup (h : wordGroup.Matches before taken after) :
    ∃ group : WordGroup, taken = group.text := by
  obtain ⟨first, _, rfl, hFirst, hOthers⟩ := h
  have hItem (before : Option Char) (taken after : List Char)
      (h : (Pattern.both blanks₁ word).Matches before taken after) :
      ∃ item : Gap × Word, taken = item.1.text ++ item.2.text := by
    obtain ⟨gap, word, rfl, hGap, hWord⟩ := h
    obtain ⟨hSome, hBlank⟩ := Pattern.matches_atLeastOnce_one.mp hGap
    exact ⟨(⟨gap, hSome, hBlank⟩, ⟨word, Pattern.matches_atLeastOnce_one.mp hWord⟩), rfl⟩
  obtain ⟨others, rfl⟩ := Pattern.exists_items_of_repeats hItem hOthers
  exact ⟨⟨⟨first, Pattern.matches_atLeastOnce_one.mp hFirst⟩, others⟩, rfl⟩

/-- Text taken as a return type is empty or one that can be written. -/
theorem matches_returnTypeText :
    returnTypeText.Matches before taken after ↔
      taken = [] ∨ ∃ type : ReturnType, taken = type.text := by
  constructor
  · rintro (⟨_, _, rfl, hFirst, hOthers⟩ | hNone)
    · have hItem (before : Option Char) (taken after : List Char)
          (h : (Pattern.all [blanks, .text ",", blanks, wordGroup]).Matches before taken after) :
          ∃ item : Space × Space × WordGroup,
            taken = item.1.text ++ ',' :: (item.2.1.text ++ item.2.2.text) := by
        obtain ⟨left, _, rfl, hLeft, _, _, rfl, hComma, right, _, rfl, hRight, hGroup⟩ := h
        obtain ⟨group, rfl⟩ := exists_wordGroup hGroup
        obtain rfl := Pattern.matches_text.mp hComma
        exact ⟨(⟨left, matches_blanks.mp hLeft⟩, ⟨right, matches_blanks.mp hRight⟩, group), rfl⟩
      obtain ⟨first, rfl⟩ := exists_wordGroup hFirst
      obtain ⟨others, rfl⟩ := Pattern.exists_items_of_repeats hItem hOthers
      exact .inr ⟨⟨first, others⟩, rfl⟩
    · exact .inl hNone
  · rintro (rfl | ⟨type, rfl⟩)
    · exact .inr rfl
    · exact matches_returnType type

end Shapes

section Settled

/-- No run of qualifiers at the start of a return type leaves a return type behind it. -/
def Settled (type : List Char) : Prop :=
  ∀ (items : List (Qualifier × Gap)) (rest : ReturnType), items ≠ [] →
    type ≠ runText items ++ rest.text

/-- A run of qualifiers ends in a blank. -/
theorem exists_last_runText {items : List (Qualifier × Gap)} (h : items ≠ []) :
    ∃ inner b, runText items = inner ++ [b] ∧ isAsciiBlank b = true := by
  obtain ⟨others, ⟨qualifier, gap⟩, rfl⟩ := (List.eq_nil_or_concat' items).resolve_left h
  obtain ⟨blanks, b, hGap⟩ := (List.eq_nil_or_concat' gap.text).resolve_left gap.some
  refine ⟨runText others ++ (qualifier.text ++ blanks), b, ?_, gap.blank b (by simp [hGap])⟩
  simp [runText, hGap]

/-- Where qualifiers have an opening parenthesis, they have a closing one. -/
theorem closing_mem_runText {items : List (Qualifier × Gap)} (h : '(' ∈ runText items) :
    ')' ∈ runText items := by
  obtain ⟨⟨qualifier, gap⟩, hItem, hMem⟩ := List.mem_flatMap.mp h
  refine List.mem_flatMap.mpr ⟨_, hItem, List.mem_append_left _ ?_⟩
  rcases List.mem_append.mp hMem with hText | hGap
  · cases qualifier with
    | keyword word known =>
        rw [Qualifier.text_keyword] at hText
        exact absurd rfl (ne_of_mem_word (isWord_of_mem_keywords known) hText (by decide))
    | deprecated since reason =>
        rcases reason with _ | ⟨space, reason⟩
        · simp [Qualifier.text_deprecated, Quotable.before]
        · simp [Qualifier.text_deprecated_reason, Quotable.before]
    | version number => simp [Qualifier.text_version, Quotable.before]
  · exact absurd rfl (ne_of_mem_blanks gap.blank hGap (by decide))

/-- A word character before a declaration without qualifiers makes its type longer. -/
theorem Parts.Valid.readAt?_cons {parts : Parts} {before : Option Char} (h : parts.Valid before)
    (hNone : parts.qualifiers = []) {type : ReturnType} (hType : parts.returnType = type.text)
    {c : Char} (hc : isWordChar c = true) (earlier : Option Char) :
    (readAt? ⟨earlier, c :: parts.text⟩).isSome := by
  obtain ⟨⟨⟨first, hFirst⟩, words⟩, groups⟩ := type
  have hWord : IsWord (c :: first) :=
    ⟨List.cons_ne_nil c first, List.forall_mem_cons.mpr ⟨hc, hFirst.2⟩⟩
  let longer : ReturnType := ⟨⟨⟨c :: first, hWord⟩, words⟩, groups⟩
  let other : Parts := { parts with qualifiers := [], returnType := longer.text }
  have hOther : other.Valid earlier := {
    h with
    qualifiers := .done _ _
    returnType := matches_returnTypeText.mpr (.inr ⟨longer, rfl⟩) }
  have hText : other.text = c :: parts.text := by
    rw [Parts.text, Parts.text, hNone, hType]
    rfl
  rw [← hText]
  exact readAt?_complete hOther

/-- The return type of the declaration that is found in a line is settled: it does not start inside
a word, and as many qualifiers as possible stand before it. -/
theorem settled_of_read? {line : List Char} {declaration : Declaration}
    (h : read? line = some declaration) : Settled declaration.returnType.toList := by
  rw [read?_eq_findFirst] at h
  obtain ⟨front, back, -, hPlace, hEarlier⟩ := Pattern.exists_of_firstAt h
  obtain ⟨parts, rfl, hValid, rfl, hGreedy⟩ := readAt?_greedy hPlace
  rw [Parts.declaration, String.toList_ofList]
  intro items rest hItems hType
  obtain ⟨inner, b, hLast, -⟩ := exists_last_runText hItems
  have hBefore : ∀ c ∈ parts.qualifiers.getLast?.or (front.getLast?.or none),
      ¬isWordChar c = true := by
    obtain ⟨run, hRun, -⟩ := matches_qualifierRun.mp hValid.qualifiers
    by_cases hNone : run = []
    · intro c hc hWord
      rw [hNone] at hRun
      rw [hRun] at hc
      obtain ⟨earlier, rfl⟩ : ∃ earlier, front = earlier ++ [c] := by
        simpa [runText, List.getLast?_eq_some_iff] using hc
      obtain ⟨type, hWritten⟩ : ∃ type : ReturnType, parts.returnType = type.text := by
        refine (matches_returnTypeText.mp hValid.returnType).resolve_left ?_
        simp [hType, hLast]
      -- the declaration would have been found one character earlier
      have hSome := hValid.readAt?_cons hRun hWritten hWord (earlier.getLast?.or none)
      rw [show readAt? ⟨earlier.getLast?.or none, c :: parts.text⟩ = none from
        hEarlier earlier c [] rfl] at hSome
      cases hSome
    · obtain ⟨inner, b, hLast, hb⟩ := exists_last_runText hNone
      rw [hRun, hLast, List.getLast?_concat, Option.some_or]
      rintro _ ⟨⟩ hWord
      exact not_isAsciiBlank_of_word hWord hb
  let other : Parts := { parts with qualifiers := runText items, returnType := rest.text }
  have hOther : other.Valid (parts.qualifiers.getLast?.or (front.getLast?.or none)) := {
    hValid with
    qualifiers := matches_qualifierRun.mpr ⟨items, rfl, fun _ => hBefore⟩
    returnType := matches_returnTypeText.mpr (.inr ⟨rest, rfl⟩) }
  have hText : other.text = parts.returnType ++ parts.rest := by
    rw [hType, List.append_assoc]
    rfl
  have hNil : runText items = [] := hGreedy other hOther hText
  simp [hLast] at hNil

theorem Parts.text_eq (parts : Parts) :
    parts.text = (parts.qualifiers ++ (((parts.returnType ++ parts.gap) ++ parts.name) ++
      parts.space)) ++ '(' :: (parts.params ++
        ')' :: (parts.ending ++ parts.terminator :: parts.after)) := by
  simp [Parts.text, Parts.rest, Parts.call]

variable {parts written : Parts} {before : Option Char}

/-- Where only the parentheses around the parameters are closed, no qualifier has arguments. -/
theorem Parts.Valid.not_mem_qualifiers (h : parts.Valid before) (hWritten : written.Valid before)
    (hNone : written.qualifiers = [])
    (hAfter : ')' ∉ written.ending ++ written.terminator :: written.after)
    (hText : parts.text = written.text) : '(' ∉ parts.qualifiers := by
  intro hOpening
  obtain ⟨items, hItems, -⟩ := matches_qualifierRun.mp h.qualifiers
  rw [hItems] at hOpening
  obtain ⟨front, back, hSplit, hFront⟩ :=
    List.eq_append_cons_of_mem (closing_mem_runText hOpening)
  have hFirst : ∀ c ∈ front, c ≠ ')' := fun c hc hSame => hFront (hSame ▸ hc)
  have hInside : ∀ c ∈ (((written.returnType ++ written.gap) ++ written.name) ++ written.space) ++
      '(' :: written.params, c ≠ ')' := by
    intro c hc
    rcases List.mem_append.mp hc with hc | hc
    · exact hWritten.ne_of_mem_head hc (by decide) (by decide) (by decide)
    · rcases List.mem_cons.mp hc with rfl | hc
      · decide
      · exact fun hSame => hWritten.params (hSame ▸ hc)
  rw [Parts.text, hItems, hSplit, Parts.text_eq, hNone, List.nil_append, List.append_assoc,
    List.cons_append] at hText
  obtain ⟨-, -, hBehind⟩ := splitFirst_unique hFirst (by simp) hInside (by simp)
    (hText.trans (List.append_assoc _ ('(' :: written.params) _).symm)
  refine hAfter ?_
  rw [← hBehind]
  simp [Parts.rest, Parts.call]

/-- Where a declaration has a settled type with one blank behind it, and no closing parenthesis but
the one behind its parameters, no qualifiers are read. -/
theorem Parts.Valid.qualifiers_eq_nil_of_settled (h : parts.Valid before)
    (hWritten : written.Valid before) (hNone : written.qualifiers = [])
    (hSettled : Settled written.returnType) (hType : EndsInWord written.returnType)
    {blank : Char} (hGap : written.gap = [blank])
    (hAfter : ')' ∉ written.ending ++ written.terminator :: written.after)
    (hText : parts.text = written.text) : parts.qualifiers = [] := by
  have hOpening := h.not_mem_qualifiers hWritten hNone hAfter hText
  obtain ⟨items, hItems, -⟩ := matches_qualifierRun.mp h.qualifiers
  by_contra hSome
  have hItemsSome : items ≠ [] := by
    rintro rfl
    exact hSome hItems
  -- up to the opening parenthesis, from the last part on
  have hHead : ∀ c ∈ parts.qualifiers ++ (((parts.returnType ++ parts.gap) ++ parts.name) ++
      parts.space), c ≠ '(' := by
    intro c hc
    rcases List.mem_append.mp hc with hc | hc
    · exact fun hSame => hOpening (hSame ▸ hc)
    · exact h.ne_of_mem_head hc (by decide) (by decide) (by decide)
  rw [Parts.text_eq, Parts.text_eq, hNone, List.nil_append] at hText
  obtain ⟨hNames, -, -⟩ := splitFirst_unique hHead (by simp)
    (fun c hc => hWritten.ne_of_mem_head hc (by decide) (by decide) (by decide)) (by simp) hText
  simp only [← List.append_assoc] at hNames
  obtain ⟨hNames, -⟩ := blanks_unique (h.name.endsInWord.append _)
    (hWritten.name.endsInWord.append _) h.space hWritten.space hNames
  obtain ⟨hTypes, -⟩ := word_unique (h.gap_last _) (hWritten.gap_last _) h.name hWritten.name
    hNames
  rcases endsInWord_of_returnTypeText h.returnType with hWord | hEmpty
  · obtain ⟨rest, hRest⟩ := (matches_returnTypeText.mp h.returnType).resolve_left hWord.ne_nil
    have hSame := (blanks_unique (hWord.append _) hType h.gap.2 hWritten.gap.2 hTypes).1
    refine hSettled items rest hItemsSome ?_
    rw [← hSame, hItems, hRest]
  · -- the settled type would end in a blank
    obtain ⟨inner, b, hLast, hb⟩ := exists_last_runText hItemsSome
    obtain ⟨blanks, b', hBlanks⟩ := (List.eq_nil_or_concat' parts.gap).resolve_left h.gap.1
    obtain ⟨front, c, hFront, hc⟩ := hType
    rw [hEmpty, List.append_nil, hGap, hBlanks, ← List.append_assoc] at hTypes
    obtain ⟨hTypes, -⟩ := List.append_inj' hTypes rfl
    rw [hItems, hLast, hFront, List.append_assoc] at hTypes
    have hMem : c ∈ [b] ++ blanks := by
      refine List.mem_of_getLast? ?_
      rw [← List.getLast?_append_of_ne_nil inner (by simp), hTypes, List.getLast?_concat]
    have hBlank : AllBlank ([b] ++ blanks) :=
      List.forall_mem_append.mpr ⟨by simpa using hb, fun d hd => h.gap.2 d (by simp [hBlanks, hd])⟩
    exact not_isAsciiBlank_of_word hc (hBlank c hMem)

theorem ReturnType.endsInWord (type : ReturnType) : EndsInWord type.text := by
  have hMatch : returnTypeText.Matches none type.text [] := matches_returnType type
  refine (endsInWord_of_returnTypeText hMatch).resolve_right ?_
  simp [ReturnType.text, WordGroup.text, type.first.first.isWord.1]

/-- A declaration of a settled type is read as it is written. -/
theorem read?_settled {type : ReturnType} (hSettled : Settled type.text) {name params : List Char}
    (hName : IsWord name) (hParams : ')' ∉ params) :
    read? (type.text ++ ' ' :: (name ++ '(' :: (params ++ [')', ';']))) =
      some ⟨[], String.ofList type.text, String.ofList name, String.ofList (trim params), ';'⟩ := by
  let written : Parts := ⟨[], type.text, [' '], name, [], params, [], ';', []⟩
  have hBlank : AllBlank [' '] := by decide
  have hTerminator : isTerminator ';' = true := by decide
  have hWritten : written.Valid none := {
    qualifiers := .done _ _
    returnType := matches_returnType type
    gap := ⟨List.cons_ne_nil _ _, hBlank⟩
    name := hName
    space := allBlank_nil
    params := hParams
    ending := ⟨[], [], [], rfl, allBlank_nil, .inr rfl, allBlank_nil⟩
    terminator := hTerminator }
  have hText : written.text = type.text ++ ' ' :: (name ++ '(' :: (params ++ [')', ';'])) := by
    simp [written, Parts.text, Parts.rest, Parts.call]
  obtain ⟨declaration, hRead⟩ := Option.isSome_iff_exists.mp (readAt?_complete hWritten)
  obtain ⟨parts, hSame, hValid, rfl⟩ := readAt?_sound hRead
  have hNone : parts.qualifiers = [] := hValid.qualifiers_eq_nil_of_settled hWritten rfl hSettled
    type.endsInWord rfl (by simp [written]) hSame.symm
  rw [hValid.declaration_eq hWritten type.endsInWord hNone hSame.symm, hText] at hRead
  rw [read?_eq_findFirst]
  refine Pattern.firstAt_of_some (hRead.trans ?_)
  rw [Parts.declaration, qualifierTokens_nil]

/-- A single word is settled, keyword or not. -/
theorem settled_of_isWord {word : List Char} (h : IsWord word) : Settled word := by
  rintro items rest hItems rfl
  obtain ⟨inner, b, hLast, hb⟩ := exists_last_runText hItems
  exact not_isAsciiBlank_of_word (h.2 b (by simp [hLast])) hb

/-- The type shown for a declaration that was found is settled, be it the one written or the one put
in for none. -/
theorem exists_settled_type {line : List Char} {declaration : Declaration}
    (h : read? line = some declaration) :
    ∃ type : ReturnType, Signature.returnTypeOf declaration = String.ofList type.text ∧
      Settled type.text := by
  have hSettled := settled_of_read? h
  obtain ⟨before, front, parts, -, hValid, rfl⟩ := read?_sound h
  rcases matches_returnTypeText.mp hValid.returnType with hNone | ⟨type, hType⟩
  · have hVoid : IsWord Signature.defaultReturnType.toList := by decide
    refine ⟨⟨⟨⟨_, hVoid⟩, []⟩, []⟩, ?_, ?_⟩
    · simp [Signature.returnTypeOf, Parts.declaration, hNone, ReturnType.text, WordGroup.text]
    · simpa [ReturnType.text, WordGroup.text] using settled_of_isWord hVoid
  · rw [Parts.declaration, String.toList_ofList, hType] at hSettled
    refine ⟨type, ?_, hSettled⟩
    have hSome : String.ofList type.text ≠ "" := by
      simpa using type.endsInWord.ne_nil
    simp [Signature.returnTypeOf, Parts.declaration, hType, hSome]

end Settled

end SignatureIndex.Declaration

namespace SignatureIndex.Signature

open Text Declaration

/-- The label of a signature declares it again: ended by a semicolon and read in whatever type, it
gives the same signature without qualifiers. -/
theorem label_declares_again {text : List Char} {enclosing : Option Enclosing}
    {source : Option String} {line : Option Int} {signature : Signature}
    (h : extract? text enclosing source line = some signature) (enclosing' : Option Enclosing)
    (source' : Option String) (line' : Option Int) :
    extract? (signature.label ++ ";").toList enclosing' source' line' =
      some { signature with
        documentation := documentationIn enclosing', qualifiers := [], source := source',
        line := line' } := by
  obtain ⟨declaration, hRead, hName, rfl⟩ := Scan.exists_declaration_of_extract? h
  obtain ⟨type, hType, hSettled⟩ := exists_settled_type hRead
  obtain ⟨before, front, parts, -, hValid, rfl⟩ := read?_sound hRead
  have hParams : ')' ∉ trim parts.params :=
    fun hMem => hValid.params ((trim_isInfix parts.params).subset hMem)
  have hAgain := read?_settled hSettled hValid.name hParams
  have hLabel : ((ofDeclaration parts.declaration enclosing source line).label ++ ";").toList =
      type.text ++ ' ' :: (parts.name ++ '(' :: (trim parts.params ++ [')', ';'])) := by
    simp only [ofDeclaration, hType]
    simp [Parts.declaration]
  have hSome : String.ofList type.text ≠ "" := by
    simpa using type.endsInWord.ne_nil
  rw [hLabel, Scan.extract?_of_read? hAgain hName, trim_trim]
  simp only [ofDeclaration, hType]
  simp [Parts.declaration, returnTypeOf, hSome]

/-- A line on which the second qualifier has to be the return type. -/
theorem label_of_leftover_qualifier :
    let line := "native static Fire ( int a = (1, b ) const \x7b".toList
    let signature : Signature := ⟨"Fire", "fire", "static", [⟨"a", "int", 0⟩, ⟨"param", "b", 1⟩],
      "static Fire(int a = (1, b)", "Built-in function. Defined in: class Gun", ["native"],
      some "gun.zs", some 3⟩
    extract? line (some ⟨.classType, "Gun"⟩) (some "gun.zs") (some 3) = some signature ∧
      extract? (signature.label ++ ";").toList none none none = some { signature with
        documentation := plainDocumentation, qualifiers := [], source := none, line := none } := by
  intro line signature
  have hSome : extract? line (some ⟨.classType, "Gun"⟩) (some "gun.zs") (some 3) =
      some signature := by decide +kernel
  exact ⟨hSome, label_declares_again hSome none none none⟩

end SignatureIndex.Signature
