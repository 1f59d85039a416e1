import Mathlib.Data.List.Basic
import SignatureIndex.Proofs.Comment
import SignatureIndex.Proofs.Text
import SignatureIndex.Scan

/-! The law of scanning. The lines of a script fall into logical lines, in one way only, and into
lines at the end that never end a statement. Where a logical line ends depends on the depth at its
start, and the depth is a fold over the characters of all lines before. Reading a script amounts to
reading its logical lines in order. -/
namespace SignatureIndex.Scan

open Text

/-- A line of a script that is not blank: its number and its trimmed text. -/
abbrev Line := Nat × List Char

/-- The depth after a character. A closing brace at depth zero stays there. -/
def braceStep (depth : Nat) (c : Char) : Nat :=
  if c = '\x7b' then depth + 1 else if c = '\x7d' then depth - 1 else depth

/-- The depth after a text. -/
def depthAfter (depth : Nat) (text : List Char) : Nat :=
  text.foldl braceStep depth

/-- The depth and the open type after a character. -/
def typeStep (current : Nat × Option Enclosing) (c : Char) : Nat × Option Enclosing :=
  (braceStep current.1 c, if c = '\x7d' ∧ braceStep current.1 c = 0 then none else current.2)

/-- The open type after a logical line that starts at a depth. A header counts only at depth zero,
and as standing before the braces of its line. -/
def enclosingAfter (depth : Nat) (enclosing : Option Enclosing) (text : List Char) :
    Option Enclosing :=
  let header := if depth = 0 then typeHeader? text else none
  (text.foldl typeStep (depth, header.or enclosing)).2

/-- The line ends a statement or opens a body, or starts with a closing brace. -/
def EndsStatement (text : List Char) : Prop :=
  text.getLast? = some ';' ∨ text.getLast? = some '\x7b' ∨ text.head? = some '\x7d'

/-- All characters of some lines. -/
def charsOf (lines : List Line) : List Char :=
  lines.flatMap (·.2)

/-- The text of a logical line: its lines with single spaces between them. -/
def joined (group : List Line) : List Char :=
  List.intercalate [' '] (group.map (·.2))

/-- The number of the first line of a logical line. -/
def firstNumber : List Line → Nat
  | [] => 0
  | line :: _ => line.1

/-- What makes a logical line at a depth. Outside of braces it is a single line; inside it goes up
to the first line that ends a statement. -/
def IsLogicalLine (depth : Nat) (group : List Line) : Prop :=
  if depth = 0 then ∃ line, group = [line]
  else ∃ earlier last, group = earlier ++ [last] ∧ (∀ line ∈ earlier, ¬EndsStatement line.2) ∧
    EndsStatement last.2

/-- Lines fall into logical lines and an unterminated rest. -/
structure Segmentation (depth : Nat) (lines : List Line) (groups : List (List Line))
    (left : List Line) : Prop where
  covers : lines = groups.flatten ++ left
  logical : ∀ before group after, groups = before ++ group :: after →
    IsLogicalLine (depthAfter depth (charsOf before.flatten)) group
  unterminated : left ≠ [] → depthAfter depth (charsOf groups.flatten) ≠ 0 ∧
    ∀ line ∈ left, ¬EndsStatement line.2

/-- The signature of a logical line. There is one only at the depth of members, not on an else-if
branch, and not where the line declares nothing. -/
def member? (source : Option String) (depth : Nat) (enclosing : Option Enclosing)
    (group : List Line) : Option Signature :=
  if depth = memberDepth ∧ isElseIf (joined group) = false then
    Signature.extract? (joined group) enclosing source (some (firstNumber group))
  else none

/-- The signatures of logical lines, in order. -/
def members (source : Option String) (depth : Nat) (enclosing : Option Enclosing) :
    List (List Line) → List Signature
  | [] => []
  | group :: rest =>
    (member? source depth enclosing group).toList ++
      members source (depthAfter depth (charsOf group))
        (enclosingAfter depth enclosing (joined group)) rest

theorem depthAfter_append (depth : Nat) (first second : List Char) :
    depthAfter depth (first ++ second) = depthAfter (depthAfter depth first) second :=
  List.foldl_append

theorem charsOf_append (first second : List Line) :
    charsOf (first ++ second) = charsOf first ++ charsOf second :=
  List.flatMap_append

theorem joined_singleton (line : Line) : joined [line] = line.2 := by
  simp [joined]

theorem joined_cons_cons (first second : Line) (rest : List Line) :
    joined (first :: second :: rest) = first.2 ++ ' ' :: joined (second :: rest) := by
  simp [joined, List.intercalate_cons_cons]

/-- The spaces between the lines do not matter to a fold that passes over spaces. -/
theorem foldl_joined {β : Type} {step : β → Char → β}
    (hSpace : ∀ current, step current ' ' = current) (current : β) (group : List Line) :
    (joined group).foldl step current = (charsOf group).foldl step current := by
  induction group generalizing current with
  | nil => rfl
  | cons line rest ih =>
      cases rest with
      | nil => simp [joined_singleton, charsOf]
      | cons next rest =>
          rw [joined_cons_cons, List.foldl_append, List.foldl_cons, hSpace, ih, ← List.foldl_append]
          rfl

/-- The spaces between the lines do not count as braces. -/
theorem depthAfter_joined (depth : Nat) (group : List Line) :
    depthAfter depth (joined group) = depthAfter depth (charsOf group) :=
  foldl_joined (fun _ => rfl) depth group

theorem joined_append_singleton {group : List Line} (h : group ≠ []) (line : Line) :
    joined (group ++ [line]) = joined group ++ ' ' :: line.2 := by
  have hPieces : group.map (·.2) ≠ [] := by simpa using h
  simpa [joined] using intercalate_append_singleton [' '] hPieces line.2

theorem firstNumber_append_singleton {group : List Line} (h : group ≠ []) (line : Line) :
    firstNumber (group ++ [line]) = firstNumber group := by
  cases group with
  | nil => exact absurd rfl h
  | cons first rest => rfl

section Segments

variable {depth : Nat} {lines group rest left : List Line} {groups : List (List Line)}

instance (text : List Char) : Decidable (EndsStatement text) :=
  inferInstanceAs (Decidable (_ ∨ _ ∨ _))

/-- A statement goes on inside braces until it is ended. -/
theorem continues_iff (depth : Nat) (text : List Char) :
    continues depth text = true ↔ depth ≠ 0 ∧ ¬EndsStatement text := by
  unfold continues EndsStatement memberDepth
  cases text.getLast? with
  | none => simp [Nat.one_le_iff_ne_zero]
  | some last => simp [Nat.one_le_iff_ne_zero, and_assoc]

theorem IsLogicalLine.ne_nil (h : IsLogicalLine depth group) : group ≠ [] := by
  unfold IsLogicalLine at h
  split at h
  · obtain ⟨line, rfl⟩ := h
    simp
  · obtain ⟨earlier, last, rfl, _⟩ := h
    simp

/-- A logical line inside braces has a line that ends a statement. -/
theorem IsLogicalLine.exists_end (h : IsLogicalLine depth group) (hDepth : depth ≠ 0) :
    ∃ line ∈ group, EndsStatement line.2 := by
  rw [IsLogicalLine, if_neg hDepth] at h
  obtain ⟨earlier, last, rfl, _, hEnds⟩ := h
  exact ⟨last, by simp, hEnds⟩

/-- Two logical lines at the start of the same lines are the same. -/
theorem IsLogicalLine.unique {other more : List Line} (hGroup : IsLogicalLine depth group)
    (hOther : IsLogicalLine depth other) (h : group ++ rest = other ++ more) : group = other := by
  unfold IsLogicalLine at hGroup hOther
  split at hGroup
  · next hDepth =>
      rw [if_pos hDepth] at hOther
      obtain ⟨line, rfl⟩ := hGroup
      obtain ⟨line', rfl⟩ := hOther
      rw [(List.cons.inj h).1]
  · next hDepth =>
      rw [if_neg hDepth] at hOther
      obtain ⟨earlier, last, rfl, hEarlier, hEnds⟩ := hGroup
      obtain ⟨earlier', last', rfl, hEarlier', hEnds'⟩ := hOther
      rw [List.append_assoc, List.append_assoc] at h
      obtain ⟨rfl, rfl, _⟩ := splitFirst_unique hEarlier (not_not.mpr hEnds) hEarlier'
        (not_not.mpr hEnds') h
      rfl

/-- Waiting lines and a line after which nothing waits make a logical line. -/
theorem IsLogicalLine.of_waiting {waiting : List Line} {line : Line}
    (hWaiting : ∀ earlier ∈ waiting, continues depth earlier.2 = true)
    (hLine : continues depth line.2 = false) : IsLogicalLine depth (waiting ++ [line]) := by
  unfold IsLogicalLine
  split
  · next hDepth =>
      cases waiting with
      | nil => exact ⟨line, rfl⟩
      | cons first _ =>
          have hFirst := hWaiting first List.mem_cons_self
          exact absurd hDepth ((continues_iff _ _).mp hFirst).1
  · next hDepth =>
      refine ⟨waiting, line, rfl, ?_, ?_⟩
      · intro earlier hMem
        exact ((continues_iff _ _).mp (hWaiting earlier hMem)).2
      · by_contra hOpen
        rw [(continues_iff _ _).mpr ⟨hDepth, hOpen⟩] at hLine
        cases hLine

/-- Each logical line is made of waiting lines and a line after which nothing waits. -/
theorem IsLogicalLine.exists_waiting (h : IsLogicalLine depth group) :
    ∃ waiting line, group = waiting ++ [line] ∧
      (∀ earlier ∈ waiting, continues depth earlier.2 = true) ∧
      continues depth line.2 = false := by
  unfold IsLogicalLine at h
  split at h
  · next hDepth =>
      obtain ⟨line, rfl⟩ := h
      refine ⟨[], line, rfl, by simp, ?_⟩
      rw [Bool.eq_false_iff, ne_eq, continues_iff]
      exact fun hContinues => hContinues.1 hDepth
  · next hDepth =>
      obtain ⟨earlier, last, rfl, hEarlier, hEnds⟩ := h
      refine ⟨earlier, last, rfl, ?_, ?_⟩
      · intro line hMem
        exact (continues_iff _ _).mpr ⟨hDepth, hEarlier line hMem⟩
      · rw [Bool.eq_false_iff, ne_eq, continues_iff]
        exact fun hContinues => hContinues.2 hEnds

namespace Segmentation

/-- Lines that all go on make up an unterminated rest. -/
theorem nil (h : ∀ line ∈ left, continues depth line.2 = true) :
    Segmentation depth left [] left where
  covers := rfl
  logical := by simp
  unterminated := by
    intro hLeft
    obtain ⟨line, hMem⟩ := List.exists_mem_of_ne_nil left hLeft
    exact ⟨((continues_iff _ _).mp (h line hMem)).1,
      fun other hOther => ((continues_iff _ _).mp (h other hOther)).2⟩

/-- A logical line in front of a segmentation makes a longer one. -/
theorem cons (hGroup : IsLogicalLine depth group)
    (h : Segmentation (depthAfter depth (charsOf group)) rest groups left) :
    Segmentation depth (group ++ rest) (group :: groups) left where
  covers := by rw [List.flatten_cons, List.append_assoc, ← h.covers]
  logical := by
    intro before other after hGroups
    cases before with
    | nil =>
        obtain ⟨rfl, _⟩ := List.cons.inj hGroups
        exact hGroup
    | cons first before =>
        obtain ⟨rfl, hRest⟩ := List.cons.inj hGroups
        rw [List.flatten_cons, charsOf_append, depthAfter_append]
        exact h.logical before other after hRest
  unterminated := by
    rw [List.flatten_cons, charsOf_append, depthAfter_append]
    exact h.unterminated

theorem head (h : Segmentation depth lines (group :: groups) left) : IsLogicalLine depth group :=
  h.logical [] group groups rfl

theorem tail (h : Segmentation depth lines (group :: groups) left) :
    Segmentation (depthAfter depth (charsOf group)) (groups.flatten ++ left) groups left where
  covers := rfl
  logical := by
    intro before other after hGroups
    have hOther := h.logical (group :: before) other after (by rw [hGroups, List.cons_append])
    rwa [List.flatten_cons, charsOf_append, depthAfter_append] at hOther
  unterminated := by
    have hLeft := h.unterminated
    rwa [List.flatten_cons, charsOf_append, depthAfter_append] at hLeft

theorem ne_nil (h : Segmentation depth lines groups left) (hGroup : group ∈ groups) :
    group ≠ [] := by
  obtain ⟨before, after, hGroups⟩ := List.append_of_mem hGroup
  exact (h.logical before group after hGroups).ne_nil

/-- Lines that never end a statement hold no logical line. -/
theorem groups_eq_nil {groups' : List (List Line)} {left' : List Line}
    (h : Segmentation depth lines [] left) (h' : Segmentation depth lines groups' left') :
    groups' = [] := by
  cases groups' with
  | nil => rfl
  | cons group groups' =>
      have hLines : left = group ++ (groups'.flatten ++ left') := by
        rw [← List.append_assoc, ← List.flatten_cons, ← h'.covers, h.covers]
        rfl
      have hLeft : left ≠ [] := by simp [hLines, h'.head.ne_nil]
      obtain ⟨hDepth, hOpen⟩ := h.unterminated hLeft
      obtain ⟨line, hMem, hEnds⟩ := h'.head.exists_end hDepth
      exact absurd hEnds (hOpen line (by simp [hLines, hMem]))

/-- Lines fall into logical lines in one way only. -/
theorem unique {groups' : List (List Line)} {left' : List Line}
    (h : Segmentation depth lines groups left) (h' : Segmentation depth lines groups' left') :
    groups = groups' ∧ left = left' := by
  induction groups generalizing depth lines groups' with
  | nil =>
      obtain rfl := h.groups_eq_nil h'
      exact ⟨rfl, h.covers.symm.trans h'.covers⟩
  | cons group groups ih =>
      cases groups' with
      | nil => exact absurd (h'.groups_eq_nil h) (by simp)
      | cons group' groups' =>
          have hLines : group ++ (groups.flatten ++ left) =
              group' ++ (groups'.flatten ++ left') := by
            rw [← List.append_assoc, ← List.append_assoc, ← List.flatten_cons,
              ← List.flatten_cons, ← h.covers, ← h'.covers]
          obtain rfl := h.head.unique h'.head hLines
          have hTail := h.tail
          rw [List.append_cancel_left hLines] at hTail
          obtain ⟨rfl, rfl⟩ := ih hTail h'.tail
          exact ⟨rfl, rfl⟩

/-- All lines fall into logical lines and a rest, also with lines that wait already. -/
theorem exists_of_waiting (depth : Nat) (waiting lines : List Line)
    (hWaiting : ∀ line ∈ waiting, continues depth line.2 = true) :
    ∃ groups left, Segmentation depth (waiting ++ lines) groups left := by
  induction lines generalizing depth waiting with
  | nil => exact ⟨[], waiting, by simpa using nil hWaiting⟩
  | cons line lines ih =>
      cases hLine : continues depth line.2 with
      | true =>
          obtain ⟨groups, left, h⟩ := ih depth (waiting ++ [line]) (by
            intro other hMem
            rcases List.mem_append.mp hMem with hOther | hOther
            · exact hWaiting other hOther
            · rwa [List.mem_singleton.mp hOther])
          exact ⟨groups, left, by simpa using h⟩
      | false =>
          have hGroup := IsLogicalLine.of_waiting hWaiting hLine
          let after := depthAfter depth (charsOf (waiting ++ [line]))
          obtain ⟨groups, left, h⟩ := ih after [] (by simp)
          exact ⟨(waiting ++ [line]) :: groups, left, by simpa using cons hGroup h⟩

end Segmentation

end Segments

section Reading

/-- Following the braces of a text folds over its characters. -/
theorem followBraces_state (line : Nat) (state : State) (text : List Char) :
    (followBraces line state text).1 =
      { depth := depthAfter state.depth text
        enclosing := (text.foldl typeStep (state.depth, state.enclosing)).2
        logicalLines := state.logicalLines } := by
  induction text generalizing state with
  | nil => rfl
  | cons c rest ih =>
      by_cases hOpen : c = '\x7b'
      · have hStep : typeStep (state.depth, state.enclosing) c =
            (state.depth + 1, state.enclosing) := by
          simp [typeStep, braceStep, hOpen]
        simp only [followBraces, hOpen, if_true, ih, depthAfter, List.foldl_cons]
        rw [← hOpen, hStep]
        simp [braceStep, hOpen]
      · by_cases hClose : c = '\x7d'
        · have hStep : typeStep (state.depth, state.enclosing) c =
              (state.depth - 1, if state.depth - 1 = 0 then none else state.enclosing) := by
            simp [typeStep, braceStep, hClose]
          simp only [followBraces, if_neg hOpen, if_pos hClose, ih, depthAfter, List.foldl_cons]
          rw [hStep]
          simp [braceStep, hClose]
        · have hStep : typeStep (state.depth, state.enclosing) c =
              (state.depth, state.enclosing) := by
            simp [typeStep, braceStep, hOpen, hClose]
          simp only [followBraces, hOpen, hClose, if_false, ih, depthAfter, List.foldl_cons, hStep]
          simp [braceStep, hOpen, hClose]

/-- A logical line moves the depth and the open type as its characters do. -/
theorem readLogicalLine_state (state : State) (group : List Line) (source : Option String) :
    (readLogicalLine state (firstNumber group) (joined group) source).state =
      { depth := depthAfter state.depth (charsOf group)
        enclosing := enclosingAfter state.depth state.enclosing (joined group)
        logicalLines := state.logicalLines + 1 } := by
  simp only [readLogicalLine, followBraces_state, enclosingAfter, depthAfter_joined]

/-- A member is read where the line is no else-if branch and declares something. -/
theorem readMember_signature (text : List Char) (line : Nat) (enclosing : Option Enclosing)
    (source : Option String) :
    (readMember text line enclosing source).1 =
      if isElseIf text = false then Signature.extract? text enclosing source (some line)
      else none := by
  unfold readMember Signature.extract?
  cases hBranch : isElseIf text with
  | true => rfl
  | false =>
      cases hExtract : Signature.extract text enclosing source (some line) with
      | ok signature => simp [Except.toOption]
      | error rejection => cases rejection <;> simp [Except.toOption]

/-- A logical line yields the signature of its member, if it has one. -/
theorem readLogicalLine_signatures (state : State) (group : List Line) (source : Option String) :
    (readLogicalLine state (firstNumber group) (joined group) source).signatures =
      (member? source state.depth state.enclosing group).toList := by
  unfold readLogicalLine member?
  by_cases hDepth : state.depth = memberDepth
  · have hNoHeader : ¬state.depth = 0 := by
      rw [hDepth]
      decide
    simp only [hDepth, true_and, if_true]
    rw [readMember_signature]
    simp [memberDepth]
  · simp [hDepth]

/-- The pending statement that waiting lines amount to. -/
def pendingOf : List Line → Option Pending
  | [] => none
  | first :: rest => some ⟨first.1, joined (first :: rest)⟩

/-- A line added to the waiting ones keeps their number and is joined by a blank. -/
theorem extend_pendingOf (waiting : List Line) (line : Line) :
    Pending.extend (pendingOf waiting) line.1 line.2 =
      ⟨firstNumber (waiting ++ [line]), joined (waiting ++ [line])⟩ := by
  cases waiting with
  | nil => simp [pendingOf, Pending.extend, firstNumber, joined_singleton]
  | cons first rest =>
      rw [joined_append_singleton (by simp), firstNumber_append_singleton (by simp)]
      rfl

/-- Lines that do not end a statement only add to those that wait. -/
theorem readLines_waiting (source : Option String) (state : State) (waiting more rest : List Line)
    (hMore : ∀ line ∈ more, continues state.depth line.2 = true) :
    readLines source state (pendingOf waiting) (more ++ rest) =
      readLines source state (pendingOf (waiting ++ more)) rest := by
  induction more generalizing waiting with
  | nil => simp
  | cons line more ih =>
      have hLine := hMore line List.mem_cons_self
      have hPending : some (Pending.extend (pendingOf waiting) line.1 line.2) =
          pendingOf (waiting ++ [line]) := by
        rw [extend_pendingOf]
        cases waiting <;> rfl
      rw [List.cons_append, readLines, if_pos hLine, hPending,
        ih (waiting ++ [line]) fun other hMem => hMore other (List.mem_cons_of_mem line hMem)]
      simp

/-- A line that ends a statement makes a logical line with those that wait. -/
theorem readLines_flush (source : Option String) (state : State) (waiting rest : List Line)
    {line : Line} (hLine : continues state.depth line.2 = false) :
    readLines source state (pendingOf waiting) (line :: rest) =
      let group := waiting ++ [line]
      let first := readLogicalLine state (firstNumber group) (joined group) source
      let others := readLines source first.state none rest
      ⟨first.signatures ++ others.signatures, others.state, first.events ++ others.events⟩ := by
  rw [readLines, if_neg (by simp [hLine]), extend_pendingOf]

/-- A logical line at the start is read as a whole. -/
theorem readLines_group (source : Option String) (state : State) {group : List Line}
    (rest : List Line) (hGroup : IsLogicalLine state.depth group) :
    readLines source state none (group ++ rest) =
      let first := readLogicalLine state (firstNumber group) (joined group) source
      let others := readLines source first.state none rest
      ⟨first.signatures ++ others.signatures, others.state, first.events ++ others.events⟩ := by
  obtain ⟨waiting, line, rfl, hWaiting, hLine⟩ := hGroup.exists_waiting
  rw [List.append_assoc, List.singleton_append]
  have hRead := readLines_waiting source state [] waiting (line :: rest) hWaiting
  rw [pendingOf, List.nil_append] at hRead
  rw [hRead, readLines_flush source state waiting rest hLine]

/-- Lines are read as the logical lines they fall into. -/
theorem readLines_of_segmentation (source : Option String) {state : State} {lines : List Line}
    {groups : List (List Line)} {left : List Line}
    (h : Segmentation state.depth lines groups left) :
    let outcome := readLines source state none lines
    outcome.signatures = members source state.depth state.enclosing groups ∧
      outcome.state.depth = depthAfter state.depth (charsOf groups.flatten) ∧
      outcome.state.logicalLines = state.logicalLines + groups.length := by
  induction groups generalizing state lines with
  | nil =>
      have hLeft : ∀ line ∈ left, continues state.depth line.2 = true := by
        intro line hMem
        obtain ⟨hDepth, hOpen⟩ := h.unterminated (List.ne_nil_of_mem hMem)
        exact (continues_iff _ _).mpr ⟨hDepth, hOpen line hMem⟩
      have hRead : readLines source state none left =
          readLines source state (pendingOf left) [] := by
        simpa [pendingOf] using readLines_waiting source state [] left [] hLeft
      simp only [h.covers, List.flatten_nil, List.nil_append, hRead]
      exact ⟨rfl, rfl, rfl⟩
  | cons group groups ih =>
      let first := readLogicalLine state (firstNumber group) (joined group) source
      have hState : first.state = _ := readLogicalLine_state state group source
      have hTail : Segmentation first.state.depth (groups.flatten ++ left) groups left := by
        rw [hState]
        exact h.tail
      obtain ⟨hSignatures, hDepth, hCount⟩ := ih hTail
      rw [hState] at hSignatures hDepth hCount
      simp only [h.covers, List.flatten_cons, List.append_assoc,
        readLines_group source state _ h.head, charsOf_append, depthAfter_append, members,
        readLogicalLine_signatures, readLogicalLine_state]
      refine ⟨by rw [hSignatures], hDepth, ?_⟩
      rw [hCount, List.length_cons, Nat.add_comm groups.length, ← Nat.add_assoc]

end Reading

section Numbering

/-- The lines of a script are those that are not blank once comments are dropped. -/
theorem mem_numberedLines {script : List Char} {line : Line} :
    line ∈ numberedLines script ↔ ∃ index raw,
      (List.splitOn '\n' (Source.stripComments script))[index]? = some raw ∧
        line = (index + 1, trim raw) ∧ line.2 ≠ [] := by
  simp only [numberedLines, List.mem_filter, List.mem_mapIdx]
  constructor
  · rintro ⟨⟨index, hIndex, rfl⟩, hText⟩
    exact ⟨index, _, List.getElem?_eq_getElem hIndex, rfl, by simpa using hText⟩
  · rintro ⟨index, raw, hRaw, rfl, hText⟩
    obtain ⟨hIndex, rfl⟩ := List.getElem?_eq_some_iff.mp hRaw
    exact ⟨⟨index, hIndex, rfl⟩, by simpa using hText⟩

/-- Lines are numbered from one to their count. -/
theorem number_bounds {script : List Char} {line : Line} (h : line ∈ numberedLines script) :
    1 ≤ line.1 ∧ line.1 ≤ (List.splitOn '\n' script).length := by
  obtain ⟨index, raw, hRaw, rfl, _⟩ := mem_numberedLines.mp h
  obtain ⟨hIndex, _⟩ := List.getElem?_eq_some_iff.mp hRaw
  rw [length_splitOn, Source.stripComments_count, ← length_splitOn] at hIndex
  exact ⟨Nat.le_add_left 1 index, hIndex⟩

/-- Lines without comments are numbered from one on, and then the blank ones are left out. -/
theorem numberedLines_eq_filter {lines : List (List Char)} (h : lines ≠ [])
    (hFeeds : ∀ line ∈ lines, '\n' ∉ line) (hMarks : ∀ line ∈ lines, Source.Unmarked line) :
    numberedLines (List.intercalate ['\n'] lines) =
      ((lines.zipIdx 1).map fun entry => (entry.2, trim entry.1)).filter fun line =>
        !line.2.isEmpty := by
  have hShift : (lines.mapIdx fun index line => (index + 1, trim line)) =
      (lines.zipIdx 1).map fun entry => (entry.2, trim entry.1) := by
    have hNumbers : lines.zipIdx 1 = _ := List.zipIdx_eq_map_add
    rw [List.mapIdx_eq_zipIdx_map, hNumbers, List.map_map]
    simp [Function.comp_def, Nat.add_comm]
  have hUnmarked : Source.Unmarked (List.intercalate ['\n'] lines) :=
    Source.unmarked_intercalate (by decide) hMarks
  rw [numberedLines, Source.stripComments_of_unmarked hUnmarked,
    List.splitOn_intercalate '\n' hFeeds h, hShift]

/-- Lines without comments, none of them blank, are numbered from one on. -/
theorem numberedLines_intercalate {lines : List (List Char)} (h : lines ≠ [])
    (hFeeds : ∀ line ∈ lines, '\n' ∉ line) (hMarks : ∀ line ∈ lines, Source.Unmarked line)
    (hBlank : ∀ line ∈ lines, trim line ≠ []) :
    numberedLines (List.intercalate ['\n'] lines) =
      (lines.zipIdx 1).map fun entry => (entry.2, trim entry.1) := by
  rw [numberedLines_eq_filter h hFeeds hMarks, List.filter_eq_self]
  intro entry hMem
  obtain ⟨⟨line, number⟩, hLine, rfl⟩ := List.mem_map.mp hMem
  simpa using hBlank line (List.fst_mem_of_mem_zipIdx hLine)

/-- Lines stand in the order of their numbers. -/
theorem numberedLines_increasing (script : List Char) :
    ((numberedLines script).map (·.1)).Pairwise (· < ·) := by
  rw [List.pairwise_map]
  apply List.Pairwise.filter
  rw [List.pairwise_iff_getElem]
  intro i j hi hj hij
  simpa using hij

/-- The first numbers of logical lines are numbers of their lines. -/
theorem firstNumbers_sublist {groups : List (List Line)} (h : ∀ group ∈ groups, group ≠ []) :
    (groups.map firstNumber).Sublist (groups.flatten.map (·.1)) := by
  induction groups with
  | nil => exact List.Sublist.slnil
  | cons group groups ih =>
      have hRest := ih fun other hMem => h other (List.mem_cons_of_mem group hMem)
      cases group with
      | nil => exact absurd rfl (h [] List.mem_cons_self)
      | cons first more =>
          rw [List.flatten_cons, List.map_append, List.map_cons, List.map_cons, List.cons_append]
          exact (hRest.trans (List.sublist_append_right _ _)).cons_cons first.1

/-- A signature is read off a declaration whose name is not reserved. -/
theorem exists_declaration_of_extract? {text : List Char} {enclosing : Option Enclosing}
    {source : Option String} {line : Option Int} {signature : Signature}
    (h : Signature.extract? text enclosing source line = some signature) :
    ∃ declaration, Declaration.read? text = some declaration ∧
      declaration.name ∉ Declaration.reservedNames ∧
      signature = Signature.ofDeclaration declaration enclosing source line := by
  unfold Signature.extract? Signature.extract at h
  split at h
  · cases h
  · next declaration hRead =>
      split at h
      · cases h
      · next hName =>
          cases h
          exact ⟨declaration, hRead, hName, rfl⟩

/-- A declaration whose name is not reserved gives its signature. -/
theorem extract?_of_read? {text : List Char} {declaration : Declaration}
    (hRead : Declaration.read? text = some declaration)
    (hName : declaration.name ∉ Declaration.reservedNames) (enclosing : Option Enclosing)
    (source : Option String) (line : Option Int) :
    Signature.extract? text enclosing source line =
      some (Signature.ofDeclaration declaration enclosing source line) := by
  simp only [Signature.extract?, Signature.extract, hRead, if_neg hName, Except.toOption]

/-- A signature carries the number of the line that it was extracted for. -/
theorem extract?_line {text : List Char} {enclosing : Option Enclosing} {source : Option String}
    {line : Option Int} {signature : Signature}
    (h : Signature.extract? text enclosing source line = some signature) :
    signature.line = line := by
  obtain ⟨declaration, -, -, rfl⟩ := exists_declaration_of_extract? h
  rfl

/-- Each signature is the one that some logical line declares. -/
theorem exists_extract?_of_mem {source : Option String} {depth : Nat} {enclosing : Option Enclosing}
    {groups : List (List Line)} {signature : Signature}
    (h : signature ∈ members source depth enclosing groups) :
    ∃ text open? line, Signature.extract? text open? source line = some signature := by
  induction groups generalizing depth enclosing with
  | nil => cases h
  | cons group groups ih =>
      rw [members, List.mem_append, Option.mem_toList, member?] at h
      rcases h with hGroup | hRest
      · split at hGroup
        · exact ⟨_, _, _, hGroup⟩
        · cases hGroup
      · exact ih hRest

/-- Every signature of a script was extracted from one of its lines. -/
theorem exists_extract?_of_mem_readScript {state : State} {script : List Char}
    {source : Option String} {signature : Signature}
    (h : signature ∈ (readScript state script source).signatures) :
    ∃ text open? line, Signature.extract? text open? source line = some signature := by
  obtain ⟨groups, left, hSegments⟩ :=
    Segmentation.exists_of_waiting state.depth [] (numberedLines script) (by simp)
  rw [List.nil_append] at hSegments
  rw [readScript, (readLines_of_segmentation source hSegments).1] at h
  exact exists_extract?_of_mem h

/-- Each signature carries the first number of its logical line. -/
theorem members_lines (source : Option String) (depth : Nat) (enclosing : Option Enclosing)
    (groups : List (List Line)) :
    ∃ numbers : List Nat, numbers.Sublist (groups.map firstNumber) ∧
      (members source depth enclosing groups).map (·.line) =
        numbers.map fun (number : Nat) => some (number : Int) := by
  induction groups generalizing depth enclosing with
  | nil => exact ⟨[], List.Sublist.slnil, rfl⟩
  | cons group groups ih =>
      obtain ⟨numbers, hSublist, hLines⟩ := ih (depthAfter depth (charsOf group))
        (enclosingAfter depth enclosing (joined group))
      cases hMember : member? source depth enclosing group with
      | none =>
          refine ⟨numbers, hSublist.cons _, ?_⟩
          simp [members, hMember, hLines]
      | some signature =>
          have hLine : signature.line = some (firstNumber group : Int) := by
            unfold member? at hMember
            split at hMember
            · exact extract?_line hMember
            · cases hMember
          refine ⟨firstNumber group :: numbers, hSublist.cons_cons _, ?_⟩
          simp [members, hMember, hLines, hLine]

end Numbering

/-- The law of scanning. A script falls into logical lines in one way only. The depth at the end is
the fold over their characters, and the signatures are those of the logical lines that start at the
depth of members. The numbers of the signatures are first numbers of logical lines; they increase,
and they are numbers of lines of the script. -/
theorem readScript_law (state : State) (script : List Char) (source : Option String) :
    let outcome := readScript state script source
    ∃ groups left,
      (∀ groups' left', Segmentation state.depth (numberedLines script) groups' left' ↔
        groups' = groups ∧ left' = left) ∧
      outcome.state.depth = depthAfter state.depth (charsOf groups.flatten) ∧
      outcome.state.logicalLines = state.logicalLines + groups.length ∧
      outcome.signatures = members source state.depth state.enclosing groups ∧
      ∃ numbers : List Nat,
        outcome.signatures.map (·.line) = (numbers.map fun (number : Nat) => some (number : Int)) ∧
        numbers.Sublist (groups.map firstNumber) ∧ numbers.Pairwise (· < ·) ∧
        ∀ number ∈ numbers, 1 ≤ number ∧ number ≤ (List.splitOn '\n' script).length := by
  intro outcome
  obtain ⟨groups, left, hSegments⟩ :=
    Segmentation.exists_of_waiting state.depth [] (numberedLines script) (by simp)
  rw [List.nil_append] at hSegments
  obtain ⟨hSignatures, hDepth, hCount⟩ := readLines_of_segmentation source hSegments
  obtain ⟨numbers, hNumbers, hLines⟩ := members_lines source state.depth state.enclosing groups
  -- the numbers of the signatures are among the numbers of all lines, in order
  have hAll : numbers.Sublist ((numberedLines script).map (·.1)) := by
    refine (hNumbers.trans (firstNumbers_sublist fun _ hMem => hSegments.ne_nil hMem)).trans ?_
    rw [hSegments.covers, List.map_append]
    exact List.sublist_append_left _ _
  refine ⟨groups, left, ?_, hDepth, hCount, hSignatures, numbers, ?_, hNumbers,
    (numberedLines_increasing script).sublist hAll, ?_⟩
  · intro groups' left'
    constructor
    · intro hOther
      exact hOther.unique hSegments
    · rintro ⟨rfl, rfl⟩
      exact hSegments
  · rw [← hLines]
    exact congrArg (List.map (·.line)) hSignatures
  · intro number hMem
    obtain ⟨line, hLine, rfl⟩ := List.mem_map.mp (hAll.subset hMem)
    exact number_bounds hLine

end SignatureIndex.Scan
