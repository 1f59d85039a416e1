import SignatureIndex.Proofs.Declaration
import SignatureIndex.Signature.Parameters

/-! Parameter texts. A list of parameters that is written with types, names and default values, and
with blanks of any kind between them, is read back. Any text at all gives one parameter for each
piece between commas that is not blank, with a name that is a word and a type that is not empty. -/
namespace SignatureIndex.Parameter

open Text Declaration

section Names

/-- Every parameter is given a word for its name. -/
theorem isWord_leadingName (rest : List Char) : IsWord (leadingName rest).toList := by
  rw [leadingName]
  split
  · decide
  · next hSome =>
      rw [String.toList_ofList]
      exact ⟨hSome, fun c hc => List.mem_takeWhile_imp hc⟩

/-- A word in front of other characters is the leading name. -/
theorem leadingName_append {name rest : List Char} (hName : IsWord name)
    (hRest : ∀ c ∈ rest.head?, ¬isWordChar c = true) :
    leadingName (name ++ rest) = String.ofList name := by
  have hWord : (name ++ rest).takeWhile isWordChar = name := by
    rw [List.takeWhile_append_of_pos hName.2, takeWhile_eq_nil hRest, List.append_nil]
  rw [leadingName, hWord]
  cases name with
  | nil => exact absurd rfl hName.1
  | cons c name => rfl

/-- The name is the same whether the text behind the type is taken as it is or word by word. -/
theorem leadingName_words (cs : List Char) :
    leadingName (List.intercalate [' '] (words cs)) = leadingName (cs.dropWhile isBlank) := by
  rw [leadingName, leadingName, takeWhile_intercalate_words]

theorem leadingName_trim (cs : List Char) :
    leadingName (trim cs) = leadingName (cs.dropWhile isBlank) := by
  obtain ⟨blanks, hSplit, hBlanks⟩ := exists_blanks_of_trimEnd (cs.dropWhile isBlank)
  have hStop : blanks.takeWhile isWordChar = [] :=
    takeWhile_eq_nil fun c hc hWord =>
      not_isBlank_of_word hWord (hBlanks c (List.mem_of_mem_head? hc))
  have hSame : (trim cs).takeWhile isWordChar = (cs.dropWhile isBlank).takeWhile isWordChar := by
    rw [hSplit, List.takeWhile_append, hStop, List.append_nil, trimEnd, ← trim]
    split
    · next hAll => exact List.Sublist.eq_of_length (List.takeWhile_sublist _) hAll
    · rfl
  rw [leadingName, leadingName, hSame]

end Names

section Types

theorem cutAfter?_append {mark : Char} {front : List Char} (hFront : mark ∉ front)
    (rest : List Char) : cutAfter? mark (front ++ mark :: rest) = some (front ++ [mark], rest) := by
  induction front with
  | nil => simp [cutAfter?]
  | cons c front ih =>
      obtain ⟨hc, hMore⟩ := not_or.mp (mt List.mem_cons.mpr hFront)
      simp [cutAfter?, Ne.symm hc, ih hMore]

/-- A cut leaves the text whole, with the mark at the end of its first half. -/
theorem cutAfter?_sound {mark : Char} {cs front back : List Char}
    (h : cutAfter? mark cs = some (front, back)) :
    cs = front ++ back ∧ front.getLast? = some mark := by
  induction cs generalizing front back with
  | nil => cases h
  | cons c rest ih =>
      rw [cutAfter?] at h
      split at h
      · next hc =>
          cases h
          exact ⟨rfl, by rw [hc]; rfl⟩
      · obtain ⟨⟨first, later⟩, hCut, hSame⟩ := Option.map_eq_some_iff.mp h
        cases hSame
        obtain ⟨rfl, hLast⟩ := ih hCut
        exact ⟨rfl, by rw [List.getLast?_cons, hLast]; rfl⟩

/-- A plain type ends at its first blank. -/
theorem splitType_plain {text rest : List Char} (hSome : text ≠ [])
    (hSolid : ∀ c ∈ text, ¬isBlank c = true) (hOther : ¬"class<".toList <+: text)
    (hRest : ∃ b ∈ rest.head?, isBlank b = true) :
    splitType (text ++ rest) = (text, List.intercalate [' '] (words rest)) := by
  obtain ⟨more, others, hWords, hBlank⟩ := words_append hSome hSolid rest
  obtain ⟨rfl, rfl⟩ := hBlank hRest
  have hStart : startsWith "class<".toList text = false :=
    Bool.eq_false_iff.mpr (mt startsWith_iff.mp hOther)
  rw [List.append_nil] at hWords
  rw [splitType, hWords]
  dsimp only
  rw [hStart]

/-- A class reference is a type up to its closing angle bracket. -/
theorem splitType_reference {inner : List Char} (hInner : '>' ∉ inner) (rest : List Char) :
    splitType ("class<".toList ++ (inner ++ '>' :: rest)) =
      (trim ("class<".toList ++ (inner ++ ['>'])), trim rest) := by
  have hSolid : "class<".toList.all (fun c => !isBlank c) = true := by decide
  obtain ⟨more, others, hWords, -⟩ : ∃ more others, _ ∧ _ :=
    @words_append "class<".toList (by decide)
      (fun c hc => by simpa using List.all_eq_true.mp hSolid c hc) (inner ++ '>' :: rest)
  have hStart : startsWith "class<".toList ("class<".toList ++ more) = true :=
    startsWith_iff.mpr (List.prefix_append _ _)
  have hFront : '>' ∉ "class<".toList ++ inner := by
    rw [List.mem_append]
    exact not_or.mpr ⟨by decide, hInner⟩
  have hCut := cutAfter?_append hFront rest
  rw [List.append_assoc, List.append_assoc] at hCut
  rw [splitType, hWords]
  dsimp only
  rw [hStart, hCut]

end Types

/-- A type as it is written: text without blanks and commas that is no class reference, or a class
reference, which may hold blanks and ends with its first closing bracket. -/
inductive WrittenType where
  | plain (text : List Char) (some : text ≠ []) (solid : ∀ c ∈ text, ¬isBlank c = true ∧ c ≠ ',')
      (other : ¬"class<".toList <+: text)
  | reference (inner : List Char) (inside : ∀ c ∈ inner, c ≠ '>' ∧ c ≠ ',')

def WrittenType.text : WrittenType → List Char
  | plain text _ _ _ => text
  | reference inner _ => "class<".toList ++ (inner ++ ['>'])

theorem WrittenType.text_reference (inner : List Char) (inside : ∀ c ∈ inner, c ≠ '>' ∧ c ≠ ',') :
    (reference inner inside).text = "class<".toList ++ (inner ++ ['>']) :=
  rfl

/-- What may stand between a type and a name: blanks, and at least one if only they tell where the
type ends. -/
def WrittenType.Separates (gap : List Char) : WrittenType → Prop
  | plain _ _ _ _ => gap ≠ [] ∧ ∀ c ∈ gap, isBlank c = true
  | reference _ _ => ∀ c ∈ gap, isBlank c = true

/-- What may stand behind a name: blanks, or a default value behind blanks and an equals sign. -/
inductive WrittenEnd where
  | blanks (space : List Char) (blank : ∀ c ∈ space, isBlank c = true)
  | value (space text : List Char) (blank : ∀ c ∈ space, isBlank c = true) (whole : ',' ∉ text)

def WrittenEnd.text : WrittenEnd → List Char
  | blanks space _ => space
  | value space text _ _ => space ++ '=' :: text

/-- A parameter as it is written, with the blanks around it. -/
structure Written where
  indent : List Char
  type : WrittenType
  gap : List Char
  name : List Char
  ending : WrittenEnd
  indent_blank : ∀ c ∈ indent, isBlank c = true
  separated : type.Separates gap
  isWord : IsWord name

def Written.text (written : Written) : List Char :=
  written.indent ++ ((written.type.text ++ (written.gap ++ written.name)) ++ written.ending.text)

section Written

/-- A written type is not empty, has no blanks at its ends and holds no comma. -/
theorem WrittenType.bounds (type : WrittenType) :
    type.text ≠ [] ∧ (∀ c ∈ type.text.head?, ¬isBlank c = true) ∧
      (∀ c ∈ type.text.getLast?, ¬isBlank c = true) ∧ ',' ∉ type.text := by
  cases type with
  | plain text hSome hSolid hOther =>
      exact ⟨hSome, fun c hc => (hSolid c (List.mem_of_mem_head? hc)).1,
        fun c hc => (hSolid c (List.mem_of_mem_getLast? hc)).1, fun hc => (hSolid ',' hc).2 rfl⟩
  | reference inner hInner =>
      refine ⟨List.append_ne_nil_of_left_ne_nil (by decide) _, ?_, ?_, ?_⟩
      · rintro _ ⟨⟩
        decide
      · intro c hc
        rw [WrittenType.text_reference, ← List.append_assoc, List.getLast?_concat] at hc
        cases hc
        decide
      · intro hc
        rcases List.mem_append.mp hc with hClass | hRest
        · revert hClass
          decide
        · rcases List.mem_append.mp hRest with hInside | hBracket
          · exact (hInner ',' hInside).2 rfl
          · revert hBracket
            decide

theorem WrittenType.Separates.isBlank {type : WrittenType} {gap : List Char}
    (h : type.Separates gap) : ∀ c ∈ gap, Text.isBlank c = true := by
  cases type with
  | plain => exact h.2
  | reference => exact h

theorem isBlank_ne_comma {c : Char} (h : isBlank c = true) : c ≠ ',' := by
  rintro rfl
  revert h
  decide

theorem WrittenEnd.comma_not_mem_text (ending : WrittenEnd) : ',' ∉ ending.text := by
  cases ending with
  | blanks space hBlank => exact fun hc => isBlank_ne_comma (hBlank ',' hc) rfl
  | value space text hBlank hWhole =>
      intro hc
      rcases List.mem_append.mp hc with hSpace | hValue
      · exact isBlank_ne_comma (hBlank ',' hSpace) rfl
      · exact hWhole (List.mem_of_ne_of_mem (by decide) hValue)

theorem Written.comma_not_mem_text (written : Written) : ',' ∉ written.text := by
  rw [Written.text]
  simp only [List.mem_append, not_or]
  exact ⟨fun hc => isBlank_ne_comma (written.indent_blank ',' hc) rfl,
    ⟨written.type.bounds.2.2.2, fun hc => isBlank_ne_comma (written.separated.isBlank ',' hc) rfl,
      fun hc => absurd (written.isWord.2 ',' hc) (by decide)⟩, written.ending.comma_not_mem_text⟩

/-- A name ends where what may follow it starts. -/
theorem WrittenEnd.head?_text (ending : WrittenEnd) :
    ∀ c ∈ (trimEnd ending.text).head?, ¬isWordChar c = true := by
  have hSpace {space : List Char} (hBlank : ∀ c ∈ space, isBlank c = true) (c : Char)
      (hc : c ∈ space.head?) : ¬isWordChar c = true :=
    fun hWord => not_isBlank_of_word hWord (hBlank c (List.mem_of_mem_head? hc))
  intro c hc
  have hHead := head?_trimEnd hc
  cases ending with
  | blanks space hBlank => exact hSpace hBlank c hHead
  | value space text hBlank _ =>
      cases space with
      | nil =>
          cases hHead
          decide
      | cons b space => exact hSpace hBlank c hHead

/-- Trimming takes the blanks around a parameter and leaves those within. -/
theorem Written.trim_text (written : Written) :
    trim written.text =
      written.type.text ++ (written.gap ++ (written.name ++ trimEnd written.ending.text)) := by
  obtain ⟨hSome, hHead, -, -⟩ := written.type.bounds
  have hCore : written.type.text ++ (written.gap ++ written.name) ≠ [] := by simp [hSome]
  have hLast : ∀ c ∈ (written.type.text ++ (written.gap ++ written.name)).getLast?,
      ¬isBlank c = true := by
    intro c hc
    rw [← List.append_assoc, List.getLast?_append_of_ne_nil _ written.isWord.1] at hc
    exact not_isBlank_of_word (written.isWord.2 c (List.mem_of_mem_getLast? hc))
  rw [Written.text, trim_append written.indent_blank hCore ?_ hLast]
  · simp only [List.append_assoc]
  · rwa [List.head?_append_of_ne_nil _ hSome]

/-- The type is told from what follows, and the name is looked for behind the blanks. -/
theorem WrittenType.splitType_text (type : WrittenType) {gap : List Char}
    (hGap : type.Separates gap) (rest : List Char) :
    ∃ behind, splitType (type.text ++ (gap ++ rest)) = (type.text, behind) ∧
      leadingName behind = leadingName ((gap ++ rest).dropWhile Text.isBlank) := by
  cases type with
  | plain text hSome hSolid hOther =>
      have hBlank : ∃ b ∈ (gap ++ rest).head?, Text.isBlank b = true := by
        obtain ⟨b, space, rfl⟩ := List.exists_cons_of_ne_nil hGap.1
        exact ⟨b, rfl, hGap.2 b List.mem_cons_self⟩
      exact ⟨_, splitType_plain hSome (fun c hc => (hSolid c hc).1) hOther hBlank,
        leadingName_words _⟩
  | reference inner hInner =>
      have hSplit := splitType_reference (fun hMem => (hInner '>' hMem).1 rfl) (gap ++ rest)
      obtain ⟨-, hHead, hLast, -⟩ := (WrittenType.reference inner hInner).bounds
      have hTrim := trim_of_solid hHead hLast
      refine ⟨trim (gap ++ rest), ?_, leadingName_trim _⟩
      rw [WrittenType.text_reference, List.append_assoc, List.append_assoc]
      exact hSplit.trans (congrArg (·, trim (gap ++ rest)) hTrim)

/-- A written parameter is read as its name and type. -/
theorem Written.ofPiece_trim (written : Written) (position : Nat) :
    ofPiece (trim written.text) position =
      ⟨String.ofList written.name, String.ofList written.type.text, position⟩ := by
  have hHead : ∀ c ∈ (written.name ++ trimEnd written.ending.text).head?, ¬isBlank c = true := by
    intro c hc
    rw [List.head?_append_of_ne_nil _ written.isWord.1] at hc
    exact not_isBlank_of_word (written.isWord.2 c (List.mem_of_mem_head? hc))
  obtain ⟨behind, hSplit, hName⟩ := written.type.splitType_text written.separated
    (written.name ++ trimEnd written.ending.text)
  rw [List.dropWhile_append_of_pos written.separated.isBlank, dropWhile_eq_self hHead,
    leadingName_append written.isWord written.ending.head?_text] at hName
  rw [written.trim_text, ofPiece, hSplit]
  simp only [hName]

end Written

section AnyText

variable {raw : List Char}

/-- A list of written parameters is cut into these. -/
theorem pieces_written (parameters : List Written) :
    pieces (List.intercalate [','] (parameters.map Written.text)) =
      parameters.map fun written => trim written.text := by
  by_cases hNone : parameters = []
  · subst hNone
    rfl
  · rw [pieces, List.splitOn_intercalate ',' ?_ (by simpa using hNone), List.map_map]
    · refine List.filter_eq_self.mpr fun piece hPiece => ?_
      obtain ⟨written, -, rfl⟩ := List.mem_map.mp hPiece
      simp [written.trim_text, written.type.bounds.1]
    · intro text hText
      obtain ⟨written, -, rfl⟩ := List.mem_map.mp hText
      exact written.comma_not_mem_text

theorem exists_of_mem_pieces {piece : List Char} (h : piece ∈ pieces raw) :
    ',' ∉ piece ∧ words piece ≠ [] := by
  obtain ⟨hMem, hSome⟩ := List.mem_filter.mp h
  obtain ⟨segment, hSegment, rfl⟩ := List.mem_map.mp hMem
  refine ⟨fun hComma => ?_, fun hWords => ?_⟩
  · exact not_mem_of_mem_splitOn hSegment ((trim_isInfix segment).subset hComma)
  · have hBlank := trim_eq_nil_iff.mpr (isBlank_of_words_eq_nil hWords)
    rw [trim_trim] at hBlank
    simp [hBlank] at hSome

/-- There are as many pieces as segments between commas that are not blank. -/
theorem length_pieces (raw : List Char) :
    (pieces raw).length =
      (List.splitOn ',' raw).countP fun segment => segment.any (!isBlank ·) := by
  rw [pieces, ← List.countP_eq_length_filter, List.countP_map]
  congr 1
  funext segment
  rw [Function.comp_apply, Bool.eq_iff_iff]
  simp [trim_eq_nil_iff]

/-- A piece always has a type, which is trimmed and holds no comma. -/
theorem splitType_sound {piece : List Char} (hComma : ',' ∉ piece) (hWords : words piece ≠ []) :
    (splitType piece).1 ≠ [] ∧ ',' ∉ (splitType piece).1 ∧
      trim (splitType piece).1 = (splitType piece).1 := by
  rw [splitType]
  split
  · next hNone => exact absurd hNone hWords
  · next type rest hType =>
      obtain ⟨hSome, hChars⟩ := mem_words (hType ▸ List.mem_cons_self : type ∈ words piece)
      split
      · next front back _ hCut =>
          obtain ⟨rfl, hLast⟩ := cutAfter?_sound hCut
          refine ⟨fun hNone => ?_, fun hMem => ?_, trim_trim front⟩
          · have hBlank := trim_eq_nil_iff.mp hNone '>' (List.mem_of_getLast? hLast)
            revert hBlank
            decide
          · exact hComma (List.mem_append_left back ((trim_isInfix front).subset hMem))
      · refine ⟨hSome, fun hMem => hComma (hChars ',' hMem).2, ?_⟩
        exact trim_of_solid (fun c hc => (hChars c (List.mem_of_mem_head? hc)).1)
          (fun c hc => (hChars c (List.mem_of_mem_getLast? hc)).1)

end AnyText

/-- Written parameters are read back. Any text gives one parameter for each piece between commas
that is not blank, in order: each piece has a first word, and so a type; the name is a word; and the
type is not empty, holds no comma and has no blanks around it. -/
theorem list_recovers_written :
    (∀ parameters : List Written, list (List.intercalate [','] (parameters.map Written.text)) =
      parameters.mapIdx fun position written =>
        ⟨String.ofList written.name, String.ofList written.type.text, position⟩) ∧
    ∀ raw : List Char,
      (∀ piece ∈ pieces raw, words piece ≠ []) ∧
      (list raw).length =
        (List.splitOn ',' raw).countP (fun segment => segment.any (!isBlank ·)) ∧
      (list raw).map Parameter.position = (List.range (list raw).length).map Int.ofNat ∧
      ∀ parameter ∈ list raw,
        IsWord parameter.name.toList ∧ parameter.declaredType ≠ "" ∧
        ',' ∉ parameter.declaredType.toList ∧
        trim parameter.declaredType.toList = parameter.declaredType.toList := by
  refine ⟨fun parameters => ?_, fun raw => ⟨?_, ?_, ?_, ?_⟩⟩
  · rw [list, pieces_written, List.mapIdx_eq_iff]
    intro position
    rw [List.getElem?_mapIdx, List.getElem?_map]
    cases parameters[position]? with
    | none => rfl
    | some written => exact congrArg some (written.ofPiece_trim position).symm
  · exact fun piece hPiece => (exists_of_mem_pieces hPiece).2
  · rw [list, List.length_mapIdx, length_pieces]
  · refine List.ext_getElem (by simp) fun position _ _ => ?_
    simp [list, ofPiece]
  · intro parameter hParameter
    obtain ⟨position, hPosition, rfl⟩ := List.mem_mapIdx.mp hParameter
    obtain ⟨hComma, hWords⟩ := exists_of_mem_pieces (List.getElem_mem hPosition)
    obtain ⟨hSome, hWhole, hTrim⟩ := splitType_sound hComma hWords
    rw [ofPiece, String.toList_ofList]
    exact ⟨isWord_leadingName _, by simpa using hSome, hWhole, hTrim⟩

/-- A class reference with a default value, and a parameter with blanks around it. -/
def referenceAndNumber : List Written :=
  [{ indent := []
     type := .reference [' ', 'A'] (by simp)
     gap := []
     name := ['a']
     ending := .value [' '] ['>'] (List.forall_mem_singleton.mpr (by decide)) (by simp)
     indent_blank := by simp
     separated := fun _ hNone => absurd hNone List.not_mem_nil
     isWord := by decide },
   { indent := [' ']
     type := .plain ['i', 'n', 't'] (by simp) (by simp [isBlank, isAsciiBlank]) (by decide)
     gap := ['\t']
     name := ['b']
     ending := .blanks [' '] (List.forall_mem_singleton.mpr (by decide))
     indent_blank := List.forall_mem_singleton.mpr (by decide)
     separated := ⟨by simp, List.forall_mem_singleton.mpr (by decide)⟩
     isWord := by decide }]

theorem list_of_referenceAndNumber :
    List.intercalate [','] (referenceAndNumber.map Written.text) =
        "class< A>a =>, int\tb ".toList ∧
      list "class< A>a =>, int\tb ".toList = [⟨"a", "class< A>", 0⟩, ⟨"b", "int", 1⟩] := by
  have hText : List.intercalate [','] (referenceAndNumber.map Written.text) =
      "class< A>a =>, int\tb ".toList := by decide
  have hList := list_recovers_written.1 referenceAndNumber
  rw [hText] at hList
  exact ⟨hText, hList.trans (by decide)⟩

-- the bracket of a default value does not end a type
example : list "class< Actor > cls = a > b ,int, int x=(y)".toList =
    [⟨"cls", "class< Actor >", 0⟩, ⟨"param", "int", 1⟩, ⟨"x", "int", 2⟩] := by
  decide +kernel

end SignatureIndex.Parameter
