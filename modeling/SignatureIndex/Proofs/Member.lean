import Mathlib.Data.List.Basic
import SignatureIndex.Proofs.Declaration
import SignatureIndex.Proofs.LineShape
import SignatureIndex.Proofs.LogicalLine

/-! Types whose member functions stand on a line each, as prototypes or with a body. A line with a
body ends in a closing brace, which ends no statement: such a line is joined with the member after
it, and of the two only the first is found. -/
namespace SignatureIndex.Scan

open Text Declaration

/-- Text within a line, without comment marks and braces. -/
def Plain (text : List Char) : Prop :=
  Source.Unmarked text ∧ ∀ c ∈ text, c ≠ '\n' ∧ c ≠ '\x7b' ∧ c ≠ '\x7d'

instance (text : List Char) : Decidable (Plain text) :=
  @instDecidableAnd _ _ _ (List.decidableBAll _ text)

/-- A member function on a line of its own. A prototype has no statements. -/
structure Member where
  indent : List Char
  returnType : List Char
  name : List Char
  params : List Char
  statements : Option (List Char)
  indent_blank : ∀ c ∈ indent, c = ' ' ∨ c = '\t'
  returnType_word : IsWord returnType
  returnType_plain : String.ofList returnType ∉ keywords
  name_word : IsWord name
  name_free : String.ofList name ∉ reservedNames
  params_plain : Plain params
  params_open : ')' ∉ params
  statements_plain : ∀ text ∈ statements, Plain text

namespace Member

/-- Whether the member is written with its body. -/
def isDefinition (member : Member) : Bool :=
  member.statements.isSome

/-- What follows the parameters. -/
def ending (member : Member) : List Char :=
  match member.statements with
  | none => [';']
  | some text => ' ' :: '\x7b' :: ' ' :: (text ++ [';', ' ', '\x7d'])

def text (member : Member) : List Char :=
  member.returnType ++ ' ' :: (member.name ++ '(' :: (member.params ++ ')' :: member.ending))

end Member

/-- The text of a type: a header, an opening brace, its members and a closing brace, each on a line
of its own. -/
structure TypeText where
  kind : TypeKind
  name : List Char
  name_word : IsWord name
  members : List Member

namespace TypeText

def header (type : TypeText) : List Char :=
  type.kind.keyword.toList ++ ' ' :: type.name

def lines (type : TypeText) : List (List Char) :=
  type.header :: ['\x7b'] ::
    (type.members.map (fun member => member.indent ++ member.text) ++ [['\x7d']])

def text (type : TypeText) : List Char :=
  List.intercalate ['\n'] type.lines

/-- The members with the numbers of their lines. -/
def entries (type : TypeText) : List (Member × Nat) :=
  type.members.zipIdx 3

end TypeText

/-- The line of a member, trimmed, with its number. -/
def lineOf (entry : Member × Nat) : Line :=
  (entry.2, entry.1.text)

def declared (entry : Member × Nat) : String × Option Int :=
  (String.ofList entry.1.name, some (entry.2 : Int))

def nameAndLine (signature : Signature) : String × Option Int :=
  (signature.name, signature.line)

/-- Members fall into runs: a definition goes with the member after it. -/
def runs : List (Member × Nat) → List (List (Member × Nat))
  | [] => []
  | entry :: rest =>
    if entry.1.isDefinition then
      match runs rest with
      | [] => [[entry]]
      | run :: more => (entry :: run) :: more
    else [entry] :: runs rest

/-- What is found of a run: its first member, unless an else-if branch stands in the run. -/
def firstOf (run : List (Member × Nat)) : Option (String × Option Int) :=
  if run.any fun entry => isElseIf entry.1.text then none else run.head?.map declared

section Braces

variable {text : List Char}

/-- Text without braces leaves the depth as it is. -/
theorem depthAfter_of_braceless (h : ∀ c ∈ text, c ≠ '\x7b' ∧ c ≠ '\x7d') (depth : Nat) :
    depthAfter depth text = depth := by
  induction text generalizing depth with
  | nil => rfl
  | cons c rest ih =>
      obtain ⟨hOpen, hClose⟩ := h c List.mem_cons_self
      have hStep : braceStep depth c = depth := by simp [braceStep, hOpen, hClose]
      change depthAfter (braceStep depth c) rest = depth
      rw [hStep]
      exact ih (fun d hd => h d (List.mem_cons_of_mem c hd)) depth

theorem Plain.depthAfter_eq (h : Plain text) (depth : Nat) : depthAfter depth text = depth :=
  depthAfter_of_braceless (fun c hc => (h.2 c hc).2) depth

theorem plain_of_isWord (h : IsWord text) : Plain text := by
  have hOther {c d : Char} (hc : c ∈ text) (hd : isWordChar d = false) : c ≠ d := by
    rintro rfl
    rw [h.2 c hc] at hd
    cases hd
  refine ⟨Source.unmarked_of_not_mem fun hMem => hOther hMem (d := '/') (by decide) rfl, ?_⟩
  intro c hc
  exact ⟨hOther hc (by decide), hOther hc (by decide), hOther hc (by decide)⟩

/-- Plain texts make a plain one, unless a comment mark arises between them. -/
theorem Plain.append {front back : List Char} (hFront : Plain front) (hBack : Plain back)
    (hHead : ∀ c ∈ back.head?, c ≠ '/' ∧ c ≠ '*') : Plain (front ++ back) :=
  ⟨hFront.1.append hBack.1 hHead, List.forall_mem_append.mpr ⟨hFront.2, hBack.2⟩⟩

theorem Plain.cons {c : Char} (hc : c ≠ '/' ∧ c ≠ '\n' ∧ c ≠ '\x7b' ∧ c ≠ '\x7d')
    (h : Plain text) : Plain (c :: text) :=
  ⟨h.1.cons hc.1, List.forall_mem_cons.mpr ⟨hc.2, h.2⟩⟩

end Braces

namespace Member

/-- The text up to the closing parenthesis. -/
theorem head_plain (member : Member) :
    Plain (member.returnType ++ ' ' :: (member.name ++ '(' :: (member.params ++ [')']))) := by
  have hClosing : Plain [')'] := by decide
  have hParams := (member.params_plain.append hClosing (by simp)).cons (c := '(') (by decide)
  have hCall := (plain_of_isWord member.name_word).append hParams (by simp)
  have hName := hCall.cons (c := ' ') (by decide)
  exact (plain_of_isWord member.returnType_word).append hName (by simp)

/-- A member is its head and what follows its parameters. -/
theorem text_eq_head (member : Member) :
    member.text = (member.returnType ++ ' ' :: (member.name ++ '(' ::
      (member.params ++ [')']))) ++ member.ending := by
  simp [text]

/-- A prototype ends in a semicolon. -/
theorem ending_of_prototype {member : Member} (h : member.isDefinition = false) :
    member.ending = [';'] := by
  unfold ending
  cases hStatements : member.statements with
  | none => rfl
  | some body => simp [isDefinition, hStatements] at h

/-- A definition ends in a body of one statement. -/
theorem ending_of_definition {member : Member} (h : member.isDefinition = true) :
    ∃ body, Plain body ∧
      member.ending = ' ' :: '\x7b' :: ' ' :: (body ++ [';', ' ', '\x7d']) := by
  unfold ending
  cases hStatements : member.statements with
  | none => simp [isDefinition, hStatements] at h
  | some body => exact ⟨body, member.statements_plain body hStatements, rfl⟩

/-- A member leaves the depth as it was. -/
theorem depthAfter_text (member : Member) (depth : Nat) :
    depthAfter depth member.text = depth := by
  rw [text_eq_head, depthAfter_append, member.head_plain.depthAfter_eq]
  cases hKind : member.isDefinition with
  | false =>
      rw [ending_of_prototype hKind]
      rfl
  | true =>
      obtain ⟨body, hBody, hEnding⟩ := ending_of_definition hKind
      rw [hEnding]
      change depthAfter (depth + 1) (body ++ [';', ' ', '\x7d']) = depth
      rw [depthAfter_append, hBody.depthAfter_eq]
      rfl

/-- No member holds a comment mark. -/
theorem text_unmarked (member : Member) : Source.Unmarked member.text := by
  rw [text_eq_head]
  cases hKind : member.isDefinition with
  | false =>
      rw [ending_of_prototype hKind]
      exact member.head_plain.1.append (by decide) (by simp)
  | true =>
      obtain ⟨body, hBody, hEnding⟩ := ending_of_definition hKind
      have hEnd : Source.Unmarked [';', ' ', '\x7d'] := by decide
      have hInner := (hBody.1.append hEnd (by simp)).cons (c := ' ') (by decide)
      rw [hEnding]
      refine member.head_plain.1.append ?_ (by simp)
      exact (hInner.cons (c := '\x7b') (by decide)).cons (by decide)

theorem not_mem_text (member : Member) : '\n' ∉ member.text := by
  intro hMem
  rw [text_eq_head] at hMem
  rcases List.mem_append.mp hMem with hHead | hEnding
  · exact (member.head_plain.2 _ hHead).1 rfl
  · cases hKind : member.isDefinition with
    | false =>
        rw [ending_of_prototype hKind] at hEnding
        revert hEnding
        decide
    | true =>
        obtain ⟨body, hBody, hSame⟩ := ending_of_definition hKind
        have hFeed : '\n' ∈ body := by simpa [hSame] using hEnding
        exact (hBody.2 _ hFeed).1 rfl

theorem getLast?_text_of_prototype {member : Member} (h : member.isDefinition = false) :
    member.text.getLast? = some ';' := by
  rw [text_eq_head, ending_of_prototype h, List.getLast?_concat]

theorem exists_body {member : Member} (h : member.isDefinition = true) :
    ∃ body, member.text = body ++ ['\x7d'] := by
  obtain ⟨body, _, hEnding⟩ := ending_of_definition h
  refine ⟨member.returnType ++ ' ' :: (member.name ++ '(' :: (member.params ++
    ')' :: ' ' :: '\x7b' :: ' ' :: (body ++ [';', ' ']))), ?_⟩
  simp [text, hEnding]

/-- A member starts with a word. -/
theorem exists_first (member : Member) :
    ∃ c rest, member.text = c :: rest ∧ isWordChar c = true := by
  obtain ⟨c, rest, hType⟩ := List.exists_cons_of_ne_nil member.returnType_word.1
  refine ⟨c, rest ++ ' ' :: (member.name ++ '(' :: (member.params ++ ')' :: member.ending)), ?_, ?_⟩
  · rw [text, hType, List.cons_append]
  · exact member.returnType_word.2 c (by simp [hType])

/-- A prototype ends a statement and a definition does not. -/
theorem continues_text (member : Member) :
    continues memberDepth member.text = member.isDefinition := by
  rw [Bool.eq_iff_iff, continues_iff]
  cases hKind : member.isDefinition with
  | false => simp [EndsStatement, getLast?_text_of_prototype hKind]
  | true =>
      obtain ⟨body, hBody⟩ := exists_body hKind
      obtain ⟨c, rest, hFirst, hWord⟩ := member.exists_first
      have hBrace : c ≠ '\x7d' := by
        rintro rfl
        revert hWord
        decide
      have hLast : member.text.getLast? = some '\x7d' := by rw [hBody, List.getLast?_concat]
      have hHead : member.text.head? = some c := by rw [hFirst, List.head?_cons]
      simp [EndsStatement, hLast, hHead, hBrace, memberDepth]

/-- A line that starts with a member declares its name. -/
theorem read?_text_append (member : Member) (rest : List Char) :
    ∃ declaration, read? (member.text ++ rest) = some declaration ∧
      declaration.name = String.ofList member.name := by
  have hRead (ending after : List Char) (c : Char) (hEnding : AllBlank ending)
      (hc : isTerminator c = true) (hSame : member.ending ++ rest = ending ++ c :: after) :
      read? (member.text ++ rest) = some ⟨[], String.ofList member.returnType,
        String.ofList member.name, String.ofList (trim member.params), c⟩ := by
    rw [← read?_head member.returnType_word member.returnType_plain member.name_word
      member.params_open hEnding hc, ← hSame]
    simp [text]
  cases hKind : member.isDefinition with
  | false =>
      have hSame : member.ending ++ rest = [] ++ ';' :: rest := by
        rw [ending_of_prototype hKind]
        rfl
      exact ⟨_, hRead [] rest ';' (by decide) (by decide) hSame, rfl⟩
  | true =>
      obtain ⟨body, _, hEnding⟩ := ending_of_definition hKind
      have hSame : member.ending ++ rest =
          [' '] ++ '\x7b' :: (' ' :: (body ++ [';', ' ', '\x7d']) ++ rest) := by
        rw [hEnding]
        rfl
      exact ⟨_, hRead [' '] _ '\x7b' (by decide) (by decide) hSame, rfl⟩

end Member

section Runs

variable {run : List (Member × Nat)} {source : Option String} {enclosing : Option Enclosing}

/-- Definitions alone make up one run. -/
theorem runs_of_definitions (h : ∀ entry ∈ run, entry.1.isDefinition = true) (hRun : run ≠ []) :
    runs run = [run] := by
  induction run with
  | nil => exact absurd rfl hRun
  | cons entry rest ih =>
      have hEntry := h entry List.mem_cons_self
      cases rest with
      | nil => simp [runs, hEntry]
      | cons next rest =>
          have hRest := ih (fun other hMem => h other (List.mem_cons_of_mem entry hMem)) (by simp)
          rw [runs, if_pos hEntry, hRest]

/-- A prototype ends the run of the definitions before it. -/
theorem runs_append_prototype (h : ∀ entry ∈ run, entry.1.isDefinition = true)
    {last : Member × Nat} (hLast : last.1.isDefinition = false) (rest : List (Member × Nat)) :
    runs (run ++ last :: rest) = (run ++ [last]) :: runs rest := by
  induction run with
  | nil => simp [runs, hLast]
  | cons entry run ih =>
      have hEntry := h entry List.mem_cons_self
      have hRun := ih fun other hMem => h other (List.mem_cons_of_mem entry hMem)
      rw [List.cons_append, runs, if_pos hEntry, hRun]
      rfl

/-- A run of members leaves the depth as it is. -/
theorem depthAfter_run (run : List (Member × Nat)) (depth : Nat) :
    depthAfter depth (charsOf (run.map lineOf)) = depth := by
  induction run with
  | nil => rfl
  | cons entry rest ih =>
      change depthAfter depth (entry.1.text ++ charsOf (rest.map lineOf)) = depth
      rw [depthAfter_append, entry.1.depthAfter_text, ih]

theorem exists_joined_cons (first : Line) (rest : List Line) :
    ∃ tail, joined (first :: rest) = first.2 ++ tail := by
  cases rest with
  | nil => exact ⟨[], by simp [joined_singleton]⟩
  | cons next rest => exact ⟨_, joined_cons_cons first next rest⟩

/-- A branch in definitions and a last line stands in one of them. -/
theorem isElseIf_joined (h : ∀ entry ∈ run, entry.1.isDefinition = true) (last : Line) :
    isElseIf (joined (run.map lineOf ++ [last])) =
      ((run.any fun entry => isElseIf entry.1.text) || isElseIf last.2) := by
  induction run with
  | nil => simp [joined_singleton]
  | cons entry rest ih =>
      obtain ⟨body, hBody⟩ := Member.exists_body (h entry List.mem_cons_self)
      have hRest := ih fun other hMem => h other (List.mem_cons_of_mem entry hMem)
      have hJoined : joined ((entry :: rest).map lineOf ++ [last]) =
          body ++ '\x7d' :: ' ' :: joined (rest.map lineOf ++ [last]) := by
        cases rest with
        | nil => simp [joined_cons_cons, lineOf, hBody]
        | cons next rest => simp [joined_cons_cons, lineOf, hBody]
      rw [hJoined, List.any_cons, Bool.or_assoc, ← hRest, hBody, Bool.eq_iff_iff, Bool.or_eq_true,
        isElseIf_iff, isElseIf_iff, isElseIf_iff, hasBranch_join_iff]

/-- A logical line that starts with a member declares it, unless a branch stands in the line. -/
theorem member?_of_first (first : Member × Nat) (others : List Line) :
    (member? source memberDepth enclosing (lineOf first :: others)).map nameAndLine =
      if isElseIf (joined (lineOf first :: others)) then none else some (declared first) := by
  obtain ⟨tail, hJoined⟩ := exists_joined_cons (lineOf first) others
  obtain ⟨declaration, hRead, hName⟩ := first.1.read?_text_append tail
  have hFree : declaration.name ∉ reservedNames := by
    rw [hName]
    exact first.1.name_free
  change read? ((lineOf first).2 ++ tail) = _ at hRead
  rw [← hJoined] at hRead
  cases hBranch : isElseIf (joined (lineOf first :: others)) with
  | true => simp [member?, hBranch]
  | false =>
      simp only [member?, hBranch, extract?_of_read? hRead hFree]
      simp [Signature.ofDeclaration, nameAndLine, declared, hName, firstNumber, lineOf]

/-- Definitions up to a prototype are read as their first member. -/
theorem member?_prototype (h : ∀ entry ∈ run, entry.1.isDefinition = true) (last : Member × Nat) :
    (member? source memberDepth enclosing (run.map lineOf ++ [lineOf last])).map nameAndLine =
      firstOf (run ++ [last]) := by
  have hBranch := isElseIf_joined h (lineOf last)
  have hAny : ((run ++ [last]).any fun entry => isElseIf entry.1.text) =
      ((run.any fun entry => isElseIf entry.1.text) || isElseIf last.1.text) := by
    rw [List.any_append, List.any_cons, List.any_nil, Bool.or_false]
  rw [firstOf, hAny]
  cases run with
  | nil =>
      rw [List.map_nil, List.nil_append] at hBranch ⊢
      rw [member?_of_first, hBranch]
      rfl
  | cons first rest =>
      rw [List.map_cons, List.cons_append] at hBranch ⊢
      rw [member?_of_first, hBranch]
      rfl

/-- Definitions up to the end of the type are read as their first member. -/
theorem member?_closing (h : ∀ entry ∈ run, entry.1.isDefinition = true) (number : Nat) :
    ((member? source memberDepth enclosing (run.map lineOf ++ [(number, ['\x7d'])])).map
      nameAndLine).toList = (runs run).filterMap firstOf := by
  have hBranch := isElseIf_joined h (number, ['\x7d'])
  have hBrace : isElseIf ['\x7d'] = false := by decide +kernel
  cases run with
  | nil =>
      have hNone : read? ['\x7d'] = none := by decide +kernel
      simp [member?, joined_singleton, hBrace, Signature.extract?, Signature.extract, hNone, runs,
        Except.toOption]
  | cons first rest =>
      rw [runs_of_definitions h (by simp)]
      rw [List.map_cons, List.cons_append] at hBranch ⊢
      rw [member?_of_first, hBranch, hBrace, Bool.or_false]
      change _ = (firstOf (first :: rest)).toList
      rfl

/-- Reading the members of a type, with definitions that wait already, up to its closing brace. -/
theorem readLines_members {state : State} (hDepth : state.depth = memberDepth)
    (waiting entries : List (Member × Nat))
    (hWaiting : ∀ entry ∈ waiting, entry.1.isDefinition = true) (number : Nat) :
    (readLines source state (pendingOf (waiting.map lineOf))
      (entries.map lineOf ++ [(number, ['\x7d'])])).signatures.map nameAndLine =
      (runs (waiting ++ entries)).filterMap firstOf := by
  induction entries generalizing state waiting with
  | nil =>
      have hEnds : continues state.depth ['\x7d'] = false := by simp [continues]
      rw [List.map_nil, List.nil_append, readLines_flush source state _ [] hEnds]
      simp only [readLogicalLine_signatures, hDepth, readLines, List.append_nil]
      rw [← Option.toList_map, member?_closing hWaiting]
  | cons entry rest ih =>
      have hContinues := entry.1.continues_text
      rw [← hDepth] at hContinues
      have hGroup : waiting.map lineOf ++ [lineOf entry] = (waiting ++ [entry]).map lineOf := by
        rw [List.map_append, List.map_singleton]
      rw [List.map_cons, List.cons_append]
      cases hKind : entry.1.isDefinition with
      | true =>
          have hMore : ∀ other ∈ waiting ++ [entry], other.1.isDefinition = true := by
            refine List.forall_mem_append.mpr ⟨hWaiting, ?_⟩
            simpa using hKind
          have hRead := readLines_waiting source state (waiting.map lineOf) [lineOf entry]
            (rest.map lineOf ++ [(number, ['\x7d'])])
            (by simpa [lineOf, hKind] using hContinues)
          rw [List.singleton_append, hGroup] at hRead
          rw [hRead, ih hDepth _ hMore, List.append_assoc, List.singleton_append]
      | false =>
          have hEnds : continues state.depth (lineOf entry).2 = false := hContinues.trans hKind
          let first := readLogicalLine state (firstNumber (waiting.map lineOf ++ [lineOf entry]))
            (joined (waiting.map lineOf ++ [lineOf entry])) source
          have hSame : first.state.depth = memberDepth := by
            rw [readLogicalLine_state, hGroup]
            exact (depthAfter_run _ _).trans hDepth
          have hOthers := ih hSame [] (by simp)
          rw [List.nil_append, List.map_nil, pendingOf] at hOthers
          rw [readLines_flush source state _ _ hEnds, runs_append_prototype hWaiting hKind]
          simp only [List.map_append, readLogicalLine_signatures, hDepth]
          rw [hOthers, ← Option.toList_map, member?_prototype hWaiting]
          cases hFirst : firstOf (waiting ++ [entry]) with
          | none => rw [List.filterMap_cons_none hFirst, Option.toList_none, List.nil_append]
          | some found =>
              rw [List.filterMap_cons_some hFirst, Option.toList_some, List.singleton_append]

/-- A line outside of braces gives no signature. -/
theorem readLines_outside (source : Option String) (state : State) (hDepth : state.depth = 0)
    (line : Line) (rest : List Line) : ∃ next : State, next.depth = depthAfter 0 line.2 ∧
      (readLines source state none (line :: rest)).signatures =
        (readLines source next none rest).signatures := by
  have hGroup : IsLogicalLine state.depth [line] := by
    rw [IsLogicalLine, if_pos hDepth]
    exact ⟨line, rfl⟩
  have hState := readLogicalLine_state state [line] source
  have hNone : member? source state.depth state.enclosing [line] = none := by
    simp [member?, hDepth, memberDepth]
  refine ⟨(readLogicalLine state (firstNumber [line]) (joined [line]) source).state, ?_, ?_⟩
  · rw [hState, hDepth]
    simp [charsOf]
  · rw [← List.singleton_append, readLines_group source state rest hGroup]
    simp only [readLogicalLine_signatures, hNone, Option.toList_none, List.nil_append]

end Runs

namespace TypeText

theorem header_plain (type : TypeText) : Plain type.header := by
  have hKeyword : Plain type.kind.keyword.toList := by
    cases type.kind <;> decide
  exact hKeyword.append ((plain_of_isWord type.name_word).cons (by decide)) (by simp)

theorem trim_header (type : TypeText) : trim type.header = type.header := by
  have hHead : ∀ c ∈ type.header.head?, ¬isBlank c = true := by
    intro c hc
    have hFirst : type.header.head? = some 'c' ∨ type.header.head? = some 's' := by
      unfold header
      cases type.kind with
      | classType => exact .inl rfl
      | structType => exact .inr rfl
    rcases hFirst with hFirst | hFirst
    all_goals
      rw [hFirst] at hc
      cases hc
      decide
  have hLast : ∀ c ∈ type.header.getLast?, ¬isBlank c = true := by
    intro c hc
    have hName : type.header.getLast? = type.name.getLast? := by
      obtain ⟨front, last, hName⟩ := (List.eq_nil_or_concat' type.name).resolve_left
        type.name_word.1
      rw [header, hName, ← List.cons_append, ← List.append_assoc, List.getLast?_concat,
        List.getLast?_concat]
    rw [hName] at hc
    exact not_isBlank_of_word (type.name_word.2 c (List.mem_of_getLast? hc))
  have hTrim : trim ([] ++ type.header) = type.header := trim_indent (by simp) hHead hLast
  exact hTrim

/-- Indentation is all that is trimmed from the line of a member. -/
theorem trim_member (member : Member) : trim (member.indent ++ member.text) = member.text := by
  obtain ⟨c, rest, hFirst, hWord⟩ := member.exists_first
  apply trim_indent
  · intro d hd
    rcases member.indent_blank d hd with rfl | rfl <;> decide
  · intro d hd
    rw [hFirst, List.head?_cons] at hd
    cases hd
    exact not_isBlank_of_word hWord
  · intro d hd
    cases hKind : member.isDefinition with
    | false =>
        rw [Member.getLast?_text_of_prototype hKind] at hd
        cases hd
        decide
    | true =>
        obtain ⟨body, hBody⟩ := Member.exists_body hKind
        rw [hBody, List.getLast?_concat] at hd
        cases hd
        decide

theorem lines_plain (type : TypeText) : ∀ line ∈ type.lines,
    '\n' ∉ line ∧ Source.Unmarked line ∧ trim line ≠ [] := by
  intro line hLine
  rw [lines, List.mem_cons, List.mem_cons, List.mem_append, List.mem_map,
    List.mem_singleton] at hLine
  rcases hLine with rfl | rfl | ⟨member, _, rfl⟩ | rfl
  · refine ⟨fun hFeed => (type.header_plain.2 _ hFeed).1 rfl, type.header_plain.1, ?_⟩
    rw [trim_header, header]
    simp
  · decide
  · have hIndent : ∀ c ∈ member.indent, c ≠ '/' ∧ c ≠ '\n' := by
      intro c hc
      rcases member.indent_blank c hc with rfl | rfl <;> decide
    obtain ⟨c, rest, hFirst, hWord⟩ := member.exists_first
    refine ⟨?_, ?_, ?_⟩
    · intro hFeed
      rcases List.mem_append.mp hFeed with hFeed | hFeed
      · exact (hIndent _ hFeed).2 rfl
      · exact member.not_mem_text hFeed
    · refine (Source.unmarked_of_not_mem fun hMem => (hIndent _ hMem).1 rfl).append
        member.text_unmarked ?_
      intro d hd
      rw [hFirst, List.head?_cons] at hd
      cases hd
      constructor
      all_goals
        rintro rfl
        revert hWord
        decide
    · rw [trim_member, hFirst]
      simp
  · decide

/-- The lines of a type, numbered from one on. -/
theorem numberedLines_text (type : TypeText) :
    numberedLines type.text = (1, type.header) :: (2, ['\x7b']) ::
      (type.entries.map lineOf ++ [(type.members.length + 3, ['\x7d'])]) := by
  have hLines := type.lines_plain
  have hSome : type.lines ≠ [] := by simp [lines]
  rw [text, numberedLines_intercalate hSome (fun line hLine => (hLines line hLine).1)
    (fun line hLine => (hLines line hLine).2.1) (fun line hLine => (hLines line hLine).2.2), lines]
  have hOpen : trim ['\x7b'] = ['\x7b'] := by decide
  have hClose : trim ['\x7d'] = ['\x7d'] := by decide
  have hMembers : ((fun entry : List Char × Nat => (entry.2, trim entry.1)) ∘
      Prod.map (fun member : Member => member.indent ++ member.text) id) = lineOf := by
    funext entry
    simp [lineOf, trim_member]
  simp only [List.zipIdx_cons, List.zipIdx_append, List.zipIdx_map, List.map_cons,
    List.map_append, List.map_map, List.length_map, List.zipIdx_nil, List.map_nil, trim_header,
    hOpen, hClose, hMembers, entries, Nat.reduceAdd, Nat.add_comm 3]

/-- What is found in a type is the first member of each run. -/
theorem found_eq (type : TypeText) (source : Option String) :
    (signatures type.text source).map nameAndLine = (runs type.entries).filterMap firstOf := by
  rw [signatures, readScript, numberedLines_text]
  obtain ⟨named, hNamed, hHeader⟩ := readLines_outside source .initial rfl (1, type.header)
    ((2, ['\x7b']) :: (type.entries.map lineOf ++ [(type.members.length + 3, ['\x7d'])]))
  rw [type.header_plain.depthAfter_eq] at hNamed
  obtain ⟨inside, hInside, hBrace⟩ := readLines_outside source named hNamed (2, ['\x7b'])
    (type.entries.map lineOf ++ [(type.members.length + 3, ['\x7d'])])
  rw [hHeader, hBrace]
  exact readLines_members hInside [] type.entries (by simp) _

end TypeText

section Complete

variable {entries : List (Member × Nat)}

theorem length_runs_le (entries : List (Member × Nat)) :
    (runs entries).length ≤ entries.length := by
  induction entries with
  | nil => exact Nat.le_refl 0
  | cons entry rest ih =>
      rw [runs]
      split
      · split
        · simp
        · next run more hRest =>
            rw [hRest] at ih
            exact Nat.le_succ_of_le ih
      · simpa using ih

/-- A definition before another member makes fewer runs than members. -/
theorem length_runs_lt {entry next : Member × Nat} {rest : List (Member × Nat)}
    (h : entry.1.isDefinition = true) :
    (runs (entry :: next :: rest)).length < (entry :: next :: rest).length := by
  have hRest := length_runs_le (next :: rest)
  rw [runs, if_pos h]
  split
  · simp
  · next run more hRuns =>
      rw [hRuns] at hRest
      simp only [List.length_cons] at hRest ⊢
      omega

theorem firstOf_singleton (entry : Member × Nat) :
    firstOf [entry] = if isElseIf entry.1.text then none else some (declared entry) := by
  simp [firstOf]

theorem runs_singleton (entry : Member × Nat) : runs [entry] = [[entry]] := by
  rw [runs]
  split <;> rfl

/-- Fewer runs than members cannot tell of all members. -/
theorem found_ne_of_lt {found : List (List (Member × Nat))} (h : found.length < entries.length) :
    found.filterMap firstOf ≠ entries.map declared := by
  intro hSame
  have hLength := congrArg List.length hSame
  have hFound := List.length_filterMap_le firstOf found
  rw [List.length_map] at hLength
  omega

/-- Every member is found exactly if only the last may have a body and none is an else-if branch.
-/
theorem found_all_iff (entries : List (Member × Nat)) :
    (runs entries).filterMap firstOf = entries.map declared ↔
      (∀ entry ∈ entries.dropLast, entry.1.isDefinition = false) ∧
        ∀ entry ∈ entries, isElseIf entry.1.text = false := by
  induction entries with
  | nil => simp [runs]
  | cons entry rest ih =>
      cases rest with
      | nil =>
          rw [runs_singleton]
          cases hBranch : isElseIf entry.1.text <;> simp [firstOf_singleton, hBranch]
      | cons next rest =>
          rw [List.dropLast_cons_of_ne_nil (List.cons_ne_nil next rest), List.forall_mem_cons,
            List.forall_mem_cons]
          cases hKind : entry.1.isDefinition with
          | true =>
              refine iff_of_false (found_ne_of_lt (length_runs_lt hKind)) ?_
              simp
          | false =>
              have hRuns : runs (entry :: next :: rest) = [entry] :: runs (next :: rest) := by
                rw [runs]
                simp [hKind]
              rw [hRuns]
              cases hBranch : isElseIf entry.1.text with
              | true =>
                  have hNone : firstOf [entry] = none := by simp [firstOf_singleton, hBranch]
                  rw [List.filterMap_cons_none hNone]
                  refine iff_of_false (found_ne_of_lt ?_) (by simp)
                  exact Nat.lt_succ_of_le (length_runs_le (next :: rest))
              | false =>
                  have hSome : firstOf [entry] = some (declared entry) := by
                    simp [firstOf_singleton, hBranch]
                  rw [List.filterMap_cons_some hSome, List.map_cons, List.cons_inj_right, ih]
                  simp

end Complete

/-- Exactly when no member of a type is lost. What is found is the first member of each run, unless
an else-if branch stands in the run. So all members are found, in order and with their lines, if and
only if only the last one may have a body, and none holds an else-if branch. -/
theorem members_found_iff (type : TypeText) (source : Option String) :
    let found := (signatures type.text source).map nameAndLine
    found = (runs type.entries).filterMap firstOf ∧
      (found = type.entries.map declared ↔
        (∀ member ∈ type.members.dropLast, member.isDefinition = false) ∧
          ∀ member ∈ type.members, isElseIf member.text = false) := by
  intro found
  have hFound := type.found_eq source
  refine ⟨hFound, ?_⟩
  change (signatures type.text source).map nameAndLine = _ ↔ _
  have hMembers : type.entries.map (·.1) = type.members := List.zipIdx_map_fst 3 type.members
  rw [hFound, found_all_iff, ← hMembers, ← List.map_dropLast, List.forall_mem_map,
    List.forall_mem_map]

/-- A member without parameters and with one statement. -/
def plainDefinition (name : List Char) (hWord : IsWord name)
    (hFree : String.ofList name ∉ reservedNames) : Member where
  indent := [' ', ' ']
  returnType := "int".toList
  name := name
  params := []
  statements := some "return 1".toList
  indent_blank := by simp
  returnType_word := by decide
  returnType_plain := by decide
  name_word := hWord
  name_free := hFree
  params_plain := by decide
  params_open := by decide
  statements_plain := by decide

def twoDefinitions : TypeText where
  kind := .classType
  name := ['A']
  name_word := by decide
  members := [plainDefinition ['F'] (by decide) (by decide),
    plainDefinition ['G'] (by decide) (by decide)]

/-- Of two definitions the second is lost. -/
theorem second_definition_lost :
    (signatures twoDefinitions.text none).map nameAndLine = [("F", some 3)] ∧
      twoDefinitions.entries.map declared = [("F", some 3), ("G", some 4)] := by
  decide +kernel

end SignatureIndex.Scan
