import SignatureIndex.Proofs.LogicalLine

/-! A statement inside braces may be broken over lines. However its lines are arranged, with blank
ones between them or not, the script is one logical line, and it is read as the same statement on a
single line is read. -/
namespace SignatureIndex.Scan

open Text

/-- The lines of one statement, without comments: the first line is not blank, none but the last
ends a statement, and the last one ends it with a semicolon or an opening brace. -/
structure IsStatement (earlier : List (List Char)) (last : List Char) : Prop where
  feedless : ∀ line ∈ earlier ++ [last], '\n' ∉ line
  unmarked : ∀ line ∈ earlier ++ [last], Source.Unmarked line
  starts : ∀ line ∈ earlier.head?, trim line ≠ []
  goesOn : ∀ line ∈ earlier, ¬EndsStatement (trim line)
  ends : (trim last).getLast? = some ';' ∨ (trim last).getLast? = some '\x7b'

/-- The lines trimmed, without those that are blank. -/
def keptLines (lines : List (List Char)) : List (List Char) :=
  (lines.map trim).filter fun line => !line.isEmpty

/-- The lines as a single one, with single spaces between them. -/
def reflowed (lines : List (List Char)) : List Char :=
  List.intercalate [' '] (keptLines lines)

/-- A script that is one logical line is read as that line. -/
theorem readScript_of_logicalLine {state : State} {script : List Char} {group : List Line}
    (source : Option String) (hLines : numberedLines script = group)
    (hGroup : IsLogicalLine state.depth group) :
    readScript state script source =
      readLogicalLine state (firstNumber group) (joined group) source := by
  have hRead := readLines_group source state [] hGroup
  rw [List.append_nil] at hRead
  rw [readScript, hLines, hRead]
  simp [readLines]

/-- The kept lines are the trimmed ones that are not blank. -/
theorem mem_keptLines {lines : List (List Char)} {line : List Char} :
    line ∈ keptLines lines ↔ (∃ raw ∈ lines, trim raw = line) ∧ line ≠ [] := by
  simp [keptLines]

theorem keptLines_append (first second : List (List Char)) :
    keptLines (first ++ second) = keptLines first ++ keptLines second := by
  simp [keptLines]

theorem keptLines_singleton {line : List Char} (h : trim line ≠ []) :
    keptLines [line] = [trim line] := by
  simp [keptLines, h]

namespace IsStatement

variable {earlier : List (List Char)} {last : List Char} (h : IsStatement earlier last)

include h

theorem trim_last_ne_nil : trim last ≠ [] := by
  intro hNil
  have hEnds := h.ends
  simp [hNil] at hEnds

theorem endsStatement_last : EndsStatement (trim last) := by
  rcases h.ends with hSemicolon | hBrace
  · exact .inl hSemicolon
  · exact .inr (.inl hBrace)

/-- The first line is kept, so the lines that are kept start with it. -/
theorem exists_first : ∃ first rest, earlier ++ [last] = first :: rest ∧ trim first ≠ [] := by
  cases hEarlier : earlier with
  | nil => exact ⟨last, [], rfl, h.trim_last_ne_nil⟩
  | cons first rest => exact ⟨first, rest ++ [last], rfl, h.starts first (by simp [hEarlier])⟩

/-- The numbered lines of a statement are the kept ones. -/
theorem numberedLines_snd :
    (numberedLines (List.intercalate ['\n'] (earlier ++ [last]))).map (·.2) =
      keptLines (earlier ++ [last]) := by
  have hNumbers := List.zipIdx_map_fst 1 (earlier ++ [last])
  rw [numberedLines_eq_filter (by simp) h.feedless h.unmarked, keptLines]
  conv_rhs => rw [← hNumbers]
  simp only [List.filter_map, List.map_map]
  rfl

theorem firstNumber_numberedLines :
    firstNumber (numberedLines (List.intercalate ['\n'] (earlier ++ [last]))) = 1 := by
  obtain ⟨first, rest, hLines, hFirst⟩ := h.exists_first
  rw [numberedLines_eq_filter (by simp) h.feedless h.unmarked, hLines, List.zipIdx_cons,
    List.map_cons, List.filter_cons_of_pos (by simpa using hFirst), firstNumber]

/-- Inside braces the lines make one logical line. -/
theorem isLogicalLine {depth : Nat} (hDepth : depth ≠ 0) {group : List Line}
    (hGroup : group.map (·.2) = keptLines (earlier ++ [last])) : IsLogicalLine depth group := by
  rw [keptLines_append, keptLines_singleton h.trim_last_ne_nil] at hGroup
  obtain ⟨front, back, rfl, hFront, hBack⟩ := List.map_eq_append_iff.mp hGroup
  obtain ⟨line, rfl, hLine⟩ := List.map_eq_singleton_iff.mp hBack
  rw [IsLogicalLine, if_neg hDepth]
  refine ⟨front, line, rfl, ?_, ?_⟩
  · intro other hOther
    have hKept : other.2 ∈ keptLines earlier := by
      rw [← hFront]
      exact List.mem_map_of_mem hOther
    obtain ⟨⟨raw, hRaw, hTrim⟩, -⟩ := mem_keptLines.mp hKept
    rw [← hTrim]
    exact h.goesOn raw hRaw
  · rw [hLine]
    exact h.endsStatement_last

/-- The single line starts as the first line does and ends as the last line does. -/
theorem head?_reflowed : ∀ c ∈ (reflowed (earlier ++ [last])).head?, ¬isBlank c = true := by
  obtain ⟨first, rest, hLines, hFirst⟩ := h.exists_first
  have hKept : keptLines (earlier ++ [last]) = trim first :: keptLines rest := by
    rw [hLines, ← List.singleton_append, keptLines_append, keptLines_singleton hFirst,
      List.singleton_append]
  have hHead : (reflowed (earlier ++ [last])).head? = (trim first).head? := by
    rw [reflowed, hKept]
    cases hChars : trim first with
    | nil => exact absurd hChars hFirst
    | cons c cs => cases keptLines rest <;> simp [List.intercalate_cons_cons]
  rw [hHead]
  exact head?_trim

/-- On one line a statement ends as it did on several. -/
theorem getLast?_reflowed : (reflowed (earlier ++ [last])).getLast? = (trim last).getLast? := by
  have hLast := keptLines_singleton h.trim_last_ne_nil
  rw [reflowed, keptLines_append, hLast]
  by_cases hKept : keptLines earlier = []
  · simp [hKept]
  · rw [intercalate_append_singleton [' '] hKept,
      List.getLast?_append_of_ne_nil _ h.trim_last_ne_nil]

theorem trim_reflowed : trim (reflowed (earlier ++ [last])) = reflowed (earlier ++ [last]) := by
  have hLast : ∀ c ∈ (reflowed (earlier ++ [last])).getLast?, ¬isBlank c = true := by
    rw [h.getLast?_reflowed]
    exact getLast?_trim
  exact trim_indent (fun _ hNone => absurd hNone List.not_mem_nil) h.head?_reflowed hLast

/-- The single line is a statement itself. -/
theorem single : IsStatement [] (reflowed (earlier ++ [last])) where
  feedless := by
    intro line hLine hFeed
    rw [List.nil_append, List.mem_singleton] at hLine
    rw [hLine] at hFeed
    rcases mem_intercalate hFeed with hSpace | ⟨piece, hPiece, hFeed⟩
    · simp at hSpace
    · obtain ⟨⟨raw, hRaw, rfl⟩, -⟩ := mem_keptLines.mp hPiece
      exact h.feedless raw hRaw ((trim_isInfix raw).subset hFeed)
  unmarked := by
    intro line hLine
    rw [List.nil_append, List.mem_singleton] at hLine
    rw [hLine]
    refine Source.unmarked_intercalate (by decide) fun piece hPiece => ?_
    obtain ⟨⟨raw, hRaw, rfl⟩, -⟩ := mem_keptLines.mp hPiece
    obtain ⟨front, back, hParts⟩ := trim_isInfix raw
    have hUnmarked : Source.Unmarked (front ++ trim raw ++ back) := by
      rw [hParts]
      exact h.unmarked raw hRaw
    exact hUnmarked.left_of_append.right_of_append
  starts := by simp
  goesOn := by simp
  ends := by
    rw [h.trim_reflowed, h.getLast?_reflowed]
    exact h.ends

/-- A statement on one line stays as it is. -/
theorem reflowed_reflowed :
    reflowed ([] ++ [reflowed (earlier ++ [last])]) = reflowed (earlier ++ [last]) := by
  rw [List.nil_append, reflowed, keptLines_singleton h.single.trim_last_ne_nil, h.trim_reflowed,
    List.intercalate_singleton]

/-- The script of a statement is read as one logical line. -/
theorem readScript_eq {state : State} (source : Option String) (hDepth : state.depth ≠ 0) :
    readScript state (List.intercalate ['\n'] (earlier ++ [last])) source =
      readLogicalLine state 1 (reflowed (earlier ++ [last])) source := by
  have hKept := h.numberedLines_snd
  have hRead := readScript_of_logicalLine source rfl (h.isLogicalLine hDepth hKept)
  rwa [h.firstNumber_numberedLines, joined, hKept] at hRead

end IsStatement

/-- Following braces never tells of an unterminated statement. -/
theorem followBraces_ne_unterminated (number : Nat) (state : State) (text : List Char) :
    ∀ event ∈ (followBraces number state text).2, ∀ line, event ≠ .unterminated line := by
  induction text generalizing state with
  | nil => simp [followBraces]
  | cons c rest ih =>
      rw [followBraces]
      split
      · simpa using ih _
      · split
        · intro event hEvent
          simp only [List.mem_cons, List.mem_append, Option.mem_toList,
            Option.map_eq_some_iff] at hEvent
          rcases hEvent with rfl | ⟨type, -, rfl⟩ | hRest
          · simp
          · simp
          · exact ih _ event hRest
        · exact ih state

/-- Reading a member never tells of an unterminated statement. -/
theorem readMember_ne_unterminated (text : List Char) (number : Nat) (enclosing : Option Enclosing)
    (source : Option String) :
    ∀ event ∈ (readMember text number enclosing source).2, ∀ line, event ≠ .unterminated line := by
  unfold readMember
  split
  · simp
  · split
    · simp
    · simp
    · split
      · simp
      · simp

/-- A statement that never ends is told at the end of a script only. -/
theorem readLogicalLine_ne_unterminated (state : State) (number : Nat) (text : List Char)
    (source : Option String) :
    ∀ event ∈ (readLogicalLine state number text source).events,
      ∀ line, event ≠ .unterminated line := by
  intro event hEvent
  simp only [readLogicalLine, List.mem_append, Option.mem_toList,
    Option.map_eq_some_iff] at hEvent
  rcases hEvent with ((⟨type, -, rfl⟩ | hMember) | hBrace) | ⟨signature, -, rfl⟩
  · simp
  · split at hMember
    · exact readMember_ne_unterminated _ _ _ _ event hMember
    · simp [List.mem_singleton.mp hMember]
  · exact followBraces_ne_unterminated _ _ _ event hBrace
  · simp

/-- Breaking a statement over lines does not matter. The script of its lines and the script of the
same statement on a single line give the same signatures, state and events. They are one logical
line that starts on the first line, so there is at most one signature, and no statement is dropped
for want of an end. -/
theorem reflow_invariant (state : State) (earlier : List (List Char)) (last : List Char)
    (source : Option String) (hDepth : memberDepth ≤ state.depth)
    (hStatement : IsStatement earlier last) :
    let single := reflowed (earlier ++ [last])
    let outcome := readScript state (List.intercalate ['\n'] (earlier ++ [last])) source
    outcome = readScript state single source ∧
      outcome.signatures.length ≤ 1 ∧
      (∀ signature ∈ outcome.signatures, signature.line = some 1) ∧
      outcome.state =
        { depth := depthAfter state.depth single
          enclosing := enclosingAfter state.depth state.enclosing single
          logicalLines := state.logicalLines + 1 } ∧
      ∀ event ∈ outcome.events, ∀ line, event ≠ .unterminated line := by
  intro single outcome
  have hInside : state.depth ≠ 0 := Nat.ne_of_gt hDepth
  have hLines : outcome = readLogicalLine state 1 single source :=
    hStatement.readScript_eq source hInside
  have hSingle : readScript state single source = readLogicalLine state 1 single source := by
    have hRead := hStatement.single.readScript_eq source hInside
    rw [hStatement.reflowed_reflowed] at hRead
    simpa using hRead
  -- both scripts are the logical line that consists of the single line
  have hJoined : joined [(1, single)] = single := joined_singleton _
  have hSignatures := readLogicalLine_signatures state [(1, single)] source
  have hState := readLogicalLine_state state [(1, single)] source
  rw [← depthAfter_joined] at hState
  rw [hJoined, firstNumber] at hSignatures hState
  rw [hLines]
  refine ⟨hSingle.symm, ?_, ?_, hState, readLogicalLine_ne_unterminated state 1 single source⟩
  · rw [hSignatures]
    exact Option.length_toList_le
  · intro signature hMem
    rw [hSignatures, Option.mem_toList, member?] at hMem
    split at hMem
    · exact extract?_line hMem
    · cases hMem

/-- A declaration over four lines, one of them blank, and the same declaration on one line. -/
theorem reflow_of_broken_declaration :
    let state : State := ⟨1, some ⟨.classType, "A"⟩, 2⟩
    let earlier := ["  virtual int F(int a,".toList, [], "\tint b)".toList]
    let last := "  const \x7b ".toList
    memberDepth ≤ state.depth ∧ IsStatement earlier last ∧
      readScript state (List.intercalate ['\n'] (earlier ++ [last])) none =
        readScript state "virtual int F(int a, int b) const \x7b".toList none := by
  intro state earlier last
  have hStatement : IsStatement earlier last :=
    ⟨by decide +kernel, by decide +kernel, by decide +kernel, by decide +kernel, by decide +kernel⟩
  have hSingle : reflowed (earlier ++ [last]) =
      "virtual int F(int a, int b) const \x7b".toList := by decide +kernel
  have hSame := (reflow_invariant state earlier last none (by decide) hStatement).1
  rw [hSingle] at hSame
  exact ⟨by decide, hStatement, hSame⟩

end SignatureIndex.Scan
