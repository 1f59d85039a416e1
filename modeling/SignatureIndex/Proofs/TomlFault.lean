import SignatureIndex.Proofs.Failure
import SignatureIndex.Proofs.TomlReader

/-! Why settings are not read. A text that is not in the format is malformed. Besides that only two
things can happen: a whole number with more than 4300 digits, which then stand in one run in the
text, and lists and tables in each other beyond the room for them, for which the text has to open
enough of them. -/
namespace SignatureIndex.Toml

/-- The number of brackets and braces that open a list or a table. -/
def openings (cs : List Char) : Nat :=
  cs.countP fun c => c = '[' || c = '\x7b'

/-- What a text holds if reading it ends with a fault, for so much room. -/
def Explains (cs : List Char) (room : Nat) : Fault → Prop
  | .malformed => True
  | .longNumber digits => digitLimit < digits ∧ ∃ run, run <:+: cs ∧ IsRun isDigit digits run
  | .nesting => room < tableRoom * openings cs + spareRoom

/-- A reading leaves an end of the text, or ends with a fault that the text explains. -/
structure ReadsFrom {α : Type} (cs : List Char) (room : Nat) (reading : Reading α) : Prop where
  leaves : ∀ value rest, reading = .ok (value, rest) → rest <:+ cs
  explained : FailsOnly (Explains cs room) reading

section Explanations

variable {cs inner : List Char} {room : Nat} {fault : Fault}

theorem openings_le_of_suffix (h : inner <:+ cs) : openings inner ≤ openings cs :=
  h.sublist.countP_le

/-- What explains a fault within the rest of a text explains it within the text. -/
theorem Explains.within (h : Explains inner room fault) (hInner : inner <:+ cs) :
    Explains cs room fault := by
  cases fault with
  | malformed => trivial
  | longNumber digits =>
      obtain ⟨hLimit, run, hRun, hDigits⟩ := h
      exact ⟨hLimit, run, hRun.trans hInner.isInfix, hDigits⟩
  | nesting =>
      have hFewer := openings_le_of_suffix hInner
      simp only [Explains, tableRoom] at h ⊢
      omega

/-- Behind an opening bracket there is less room. -/
theorem Explains.behind {mark : Char} {rest : List Char} {taken : Nat}
    (hMark : (mark = '[' || mark = '\x7b') = true) (hTaken : taken ≤ tableRoom)
    (hInner : inner <:+ rest) (h : Explains inner (room - taken) fault) :
    Explains (mark :: rest) room fault := by
  have hWithin := hInner.trans (List.suffix_cons mark rest)
  cases fault with
  | malformed => trivial
  | longNumber digits => exact (show Explains inner room (.longNumber digits) from h).within hWithin
  | nesting =>
      have hMore : openings (mark :: rest) = openings rest + 1 := List.countP_cons_of_pos hMark
      have hFewer := openings_le_of_suffix hInner
      simp only [Explains, tableRoom] at h hTaken ⊢
      omega

/-- At an opening bracket there can be too little room. -/
theorem explains_nesting {mark : Char} {rest : List Char} {taken : Nat}
    (hMark : (mark = '[' || mark = '\x7b') = true) (hTaken : taken ≤ tableRoom)
    (hRoom : room < taken + spareRoom) : Explains (mark :: rest) room .nesting := by
  have hMore : openings (mark :: rest) = openings rest + 1 := List.countP_cons_of_pos hMark
  simp only [Explains, tableRoom] at hTaken ⊢
  omega

end Explanations

namespace ReadsFrom

variable {α β : Type} {cs inner : List Char} {room : Nat} {reading : Reading α}

theorem ok {value : α} {rest : List Char} (hRest : rest <:+ cs) :
    ReadsFrom cs room (.ok (value, rest)) := by
  refine ⟨?_, .ok _⟩
  intro other after h
  rw [← (Prod.mk.inj (Except.ok.inj h)).2]
  exact hRest

theorem error {fault : Fault} (h : Explains cs room fault) :
    ReadsFrom cs room (.error fault : Reading α) := by
  refine ⟨?_, .error h⟩
  intro value rest hOk
  cases hOk

theorem malformed : ReadsFrom cs room (.error .malformed : Reading α) :=
  error trivial

theorem orMalformed {read : Read α} (h : Leaves cs read) :
    ReadsFrom cs room (orMalformed read) := by
  cases read with
  | none => exact malformed
  | some found => exact ok (h found.1 found.2 rfl)

theorem map (f : α → β) (h : ReadsFrom cs room reading) :
    ReadsFrom cs room (reading.map fun (value, rest) => (f value, rest)) := by
  cases reading with
  | error fault => exact error (h.explained fault rfl)
  | ok found => exact ok (h.leaves found.1 found.2 rfl)

theorem within (h : ReadsFrom inner room reading) (hInner : inner <:+ cs) :
    ReadsFrom cs room reading :=
  ⟨fun value rest hOk => (h.leaves value rest hOk).trans hInner,
    h.explained.mono fun _ hFault => hFault.within hInner⟩

/-- Behind an opening bracket a reader has less room, and one more opening to account for it. -/
theorem behind {mark : Char} {rest : List Char} {taken : Nat}
    (hMark : (mark = '[' || mark = '\x7b') = true) (hTaken : taken ≤ tableRoom)
    (hInner : inner <:+ rest) (h : ReadsFrom inner (room - taken) reading) :
    ReadsFrom (mark :: rest) room reading :=
  ⟨fun value after hOk =>
      (h.leaves value after hOk).trans (hInner.trans (List.suffix_cons mark rest)),
    h.explained.mono fun _ hFault => hFault.behind hMark hTaken hInner⟩

end ReadsFrom

section Values

/-- A number that is too long stands in the text with all of its digits. -/
theorem readDecimal_reads {cs : List Char} {room : Nat} {reading : Reading Value}
    (h : readDecimal cs = some reading) : ReadsFrom cs room reading := by
  have hSign := readSign_suffix cs
  unfold readDecimal at h
  simp only at h
  split at h
  · cases h
  · next whole afterWhole hWhole =>
      obtain ⟨run, hRun, hDigits⟩ := exists_run_of_readWhole hWhole
      have hAfter : (readExponent (readFraction afterWhole).2).2 <:+ cs :=
        (readExponent_suffix _).trans <| (readFraction_suffix afterWhole).trans <|
          (hRun ▸ List.suffix_append run afterWhole).trans hSign
      split at h
      · split at h
        · next hLong =>
            cases h
            refine .error ⟨hLong, run, ?_, hDigits⟩
            exact (hRun ▸ (List.prefix_append run afterWhole).isInfix).trans hSign.isInfix
        · cases h
          exact .ok hAfter
      · cases h
        exact .ok hAfter

theorem readNumber_reads (room : Nat) (cs : List Char) : ReadsFrom cs room (readNumber cs) := by
  unfold readNumber
  split
  · next found hBased => exact .ok (readBased_leaves cs found.1 found.2 hBased)
  · next reading hDecimal => exact readDecimal_reads hDecimal
  · exact .orMalformed (readNamed_leaves cs)

theorem readScalar_reads (bound room : Nat) (cs : List Char) :
    ReadsFrom cs room (readScalar bound cs) := by
  have hRead : ReadsFrom cs room (orMalformed (readText bound cs)) :=
    .orMalformed (readText_leaves bound cs)
  have hText := hRead.map fun text => Value.text (String.ofList text)
  unfold readScalar
  split
  · exact hText
  · exact hText
  · next rest => exact .ok (List.suffix_append ['t', 'r', 'u', 'e'] rest)
  · next rest => exact .ok (List.suffix_append ['f', 'a', 'l', 's', 'e'] rest)
  · split
    · next moment rest hMoment => exact .ok (readMoment_leaves cs _ rest hMoment)
    · exact .malformed
    · exact readNumber_reads room cs

/-- A value is explained if its items and fields are. -/
theorem readValue_reads_of {bound : Nat}
    (hItems : ∀ room cs, ReadsFrom cs room (readItems bound room cs))
    (hFields : ∀ room inline cs, ReadsFrom cs room (readFields bound room inline cs)) (room : Nat)
    (cs : List Char) : ReadsFrom cs room (readValue (bound + 1) room cs) := by
  unfold readValue
  split
  · next rest =>
      split
      · next hRoom => exact .error (explains_nesting (by decide) (by decide) hRoom)
      · split
        · exact .malformed
        · next after hSkip =>
            refine .ok ((List.suffix_cons ']' after).trans ?_)
            exact (skipFiller_suffix hSkip).trans (List.suffix_cons '[' rest)
        · next items _ hSkip =>
            exact .behind (by decide) (by decide) (skipFiller_suffix hSkip)
              ((hItems (room - listRoom) items).map Value.list)
  · next rest =>
      split
      · next hRoom => exact .error (explains_nesting (by decide) (by decide) hRoom)
      · have hSpace := skipSpace_suffix rest
        split
        · next after hSkip =>
            rw [hSkip] at hSpace
            refine .ok ((List.suffix_cons '\x7d' after).trans ?_)
            exact hSpace.trans (List.suffix_cons '\x7b' rest)
        · exact .behind (by decide) (by decide) hSpace
            ((hFields (room - tableRoom) ⟨[], .unmarked⟩ _).map fun inline =>
              Value.record inline.fields)
  · exact readScalar_reads bound room cs

/-- Items are explained if the values and the items behind them are. -/
theorem readItems_reads_of {bound : Nat}
    (hValue : ∀ room cs, ReadsFrom cs room (readValue bound room cs))
    (hItems : ∀ room cs, ReadsFrom cs room (readItems bound room cs)) (room : Nat)
    (cs : List Char) : ReadsFrom cs room (readItems (bound + 1) room cs) := by
  unfold readItems
  split
  · next fault hFault => exact .error ((hValue room cs).explained fault hFault)
  · next value rest hRead =>
      have hRest := (hValue room cs).leaves value rest hRead
      split
      · next after hSkip =>
          exact .ok ((List.suffix_cons ']' after).trans ((skipFiller_suffix hSkip).trans hRest))
      · next more hSkip =>
          have hMore := (List.suffix_cons ',' more).trans ((skipFiller_suffix hSkip).trans hRest)
          split
          · exact .malformed
          · next after hNext =>
              exact .ok ((List.suffix_cons ']' after).trans
                ((skipFiller_suffix hNext).trans hMore))
          · next items hNext =>
              refine .within ?_ ((skipFiller_suffix hNext).trans hMore)
              exact (hItems room _).map (value :: ·)
      · exact .malformed

/-- Fields are explained if the values and the fields behind them are. -/
theorem readFields_reads_of {bound : Nat}
    (hValue : ∀ room cs, ReadsFrom cs room (readValue bound room cs))
    (hFields : ∀ room inline cs, ReadsFrom cs room (readFields bound room inline cs)) (room : Nat)
    (inline : Inline) (cs : List Char) :
    ReadsFrom cs room (readFields (bound + 1) room inline cs) := by
  unfold readFields
  split
  · next key rest hKey =>
      have hStart : skipSpace rest <:+ cs := (skipSpace_suffix rest).trans <|
        (List.suffix_cons '=' rest).trans (readKey_leaves _ cs key _ hKey)
      split
      · next fault hFault =>
          exact .error (((hValue room _).explained fault hFault).within hStart)
      · next value afterValue hRead =>
          have hAfter : skipSpace afterValue <:+ cs := (skipSpace_suffix afterValue).trans <|
            ((hValue room _).leaves value afterValue hRead).trans hStart
          split
          · exact .malformed
          · next extended _ =>
              split
              · next after hClose =>
                  rw [hClose] at hAfter
                  exact .ok ((List.suffix_cons '\x7d' after).trans hAfter)
              · next more hComma =>
                  rw [hComma] at hAfter
                  exact (hFields room extended _).within <|
                    (skipSpace_suffix more).trans ((List.suffix_cons ',' more).trans hAfter)
              · exact .malformed
  · exact .malformed

/-- Each of the three readers of values, from the others with one step less. -/
theorem readers_read (bound : Nat) :
    (∀ room cs, ReadsFrom cs room (readValue bound room cs)) ∧
      (∀ room cs, ReadsFrom cs room (readItems bound room cs)) ∧
      ∀ room inline cs, ReadsFrom cs room (readFields bound room inline cs) := by
  induction bound with
  | zero =>
      refine ⟨fun room cs => ?_, fun room cs => ?_, fun room inline cs => ?_⟩
      · rw [readValue]
        exact .malformed
      · rw [readItems]
        exact .malformed
      · rw [readFields]
        exact .malformed
  | succ bound ih =>
      obtain ⟨ihValue, ihItems, ihFields⟩ := ih
      exact ⟨readValue_reads_of ihItems ihFields, readItems_reads_of ihValue ihItems,
        readFields_reads_of ihValue ihFields⟩

end Values

section Documents

variable {cs : List Char} {state : State}

theorem readHeader_leaves (bound : Nat) (state : State) (cs : List Char) :
    Leaves cs (readHeader bound state cs) := by
  unfold readHeader
  simp only
  split
  · next rest =>
      split
      · next key after hKey =>
          refine .of_option ((List.suffix_append [']', ']'] after).trans ?_)
          exact (readKey_leaves _ _ key _ hKey).trans <|
            (skipSpace_suffix rest).trans (List.suffix_cons '[' rest)
      · exact .of_none
  · split
    · next key after hKey =>
        refine .of_option ((List.suffix_cons ']' after).trans ?_)
        exact (readKey_leaves _ _ key _ hKey).trans (skipSpace_suffix cs)
    · exact .of_none

theorem readLine_reads (bound room : Nat) (state : State) (cs : List Char) :
    ReadsFrom cs room (readLine bound room state cs) := by
  unfold readLine
  split
  · next key rest hKey =>
      have hStart : skipSpace rest <:+ cs := (skipSpace_suffix rest).trans <|
        (List.suffix_cons '=' rest).trans (readKey_leaves _ cs key _ hKey)
      have hValue := (readers_read bound).1 room (skipSpace rest)
      split
      · next fault hFault => exact .error ((hValue.explained fault hFault).within hStart)
      · next value after hRead =>
          have hAfter := (hValue.leaves value after hRead).trans hStart
          cases state.putLine key value with
          | none => exact .malformed
          | some next => exact .ok hAfter
  · exact .malformed

theorem readStatement_reads (bound room : Nat) (state : State) (cs : List Char) :
    ReadsFrom cs room (readStatement bound room state cs) := by
  unfold readStatement
  split
  · exact .ok List.suffix_rfl
  · exact .ok List.suffix_rfl
  · next rest =>
      exact .within (.orMalformed (readHeader_leaves bound state rest)) (List.suffix_cons '[' rest)
  · split
    · exact readLine_reads bound room state _
    · exact .malformed

/-- Every fault of a document is explained by its text. -/
theorem readStatements_explained (bound room : Nat) (state : State) (cs : List Char) :
    FailsOnly (Explains cs room) (readStatements bound room state cs) := by
  induction bound generalizing state cs with
  | zero => exact .error trivial
  | succ bound ih =>
      have hSpace := skipSpace_suffix cs
      unfold readStatements
      split
      · exact .ok _
      · next rest hSkip =>
          rw [hSkip] at hSpace
          exact (ih state rest).mono fun _ h => h.within ((List.suffix_cons '\n' rest).trans hSpace)
      · have hStatement := (readStatement_reads bound room state (skipSpace cs)).within hSpace
        split
        · next fault hFault => exact .error (hStatement.explained fault hFault)
        · next following rest hRead =>
            have hRest := (skipSpace_suffix rest).trans (hStatement.leaves following rest hRead)
            split
            · exact .error trivial
            · exact .ok _
            · next after hComment =>
                have hAfter := (List.suffix_cons '\n' after).trans
                  ((skipComment_suffix hComment).trans hRest)
                exact (ih following after).mono fun _ h => h.within hAfter
            · exact .error trivial

/-- What a text with joined line ends starts with, up to the first of them, the text starts with
itself. -/
theorem isPrefix_of_joinLineEnds {run text : List Char} (hRun : '\n' ∉ run)
    (h : run <+: joinLineEnds text) : run <+: text := by
  cases run with
  | nil => exact List.nil_prefix
  | cons c run =>
      fun_induction joinLineEnds text generalizing c run with
      | case1 rest => exact absurd (List.cons_prefix_cons.mp h).1 fun hc => hRun (by simp [hc])
      | case2 d rest _ ih =>
          obtain ⟨rfl, hRest⟩ := List.cons_prefix_cons.mp h
          refine List.cons_prefix_cons.mpr ⟨rfl, ?_⟩
          cases run with
          | nil => exact List.nil_prefix
          | cons next run => exact ih next run (mt (List.mem_cons_of_mem c) hRun) hRest
      | case3 => exact h

/-- What stands in a text with joined line ends and holds none of them stands in the text
itself. -/
theorem isInfix_of_joinLineEnds {run text : List Char} (hRun : '\n' ∉ run)
    (h : run <:+: joinLineEnds text) : run <:+: text := by
  cases run with
  | nil => exact List.nil_infix
  | cons d run =>
      fun_induction joinLineEnds text with
      | case1 rest ih =>
          rcases List.infix_cons_iff.mp h with hFirst | hLater
          · exact absurd (List.cons_prefix_cons.mp hFirst).1 fun hd => hRun (by simp [hd])
          · exact (ih hLater).trans (List.suffix_append ['\r', '\n'] rest).isInfix
      | case2 c rest _ ih =>
          rcases List.infix_cons_iff.mp h with hFirst | hLater
          · obtain ⟨rfl, hRest⟩ := List.cons_prefix_cons.mp hFirst
            have hSame := isPrefix_of_joinLineEnds (mt (List.mem_cons_of_mem d) hRun) hRest
            exact (List.cons_prefix_cons.mpr ⟨rfl, hSame⟩).isInfix
          · exact (ih hLater).trans (List.suffix_cons c rest).isInfix
      | case3 => exact h

theorem openings_joinLineEnds (text : List Char) :
    openings (joinLineEnds text) = openings text := by
  fun_induction joinLineEnds text with
  | case1 rest ih => simpa [openings] using ih
  | case2 c rest _ ih =>
      rw [openings, List.countP_cons, ← openings, ih, openings, openings, List.countP_cons]
  | case3 => rfl

/-- Reading settings ends with a fault only if the text explains it. -/
theorem read_explained (room : Nat) (text : List Char) :
    FailsOnly (Explains text room) (read room text) := by
  have hJoined := (readStatements_explained (stepsFor text) room ⟨[], .unmarked, []⟩
    (joinLineEnds text)).map State.fields
  refine hJoined.mono fun fault hFault => ?_
  cases fault with
  | malformed => trivial
  | longNumber digits =>
      obtain ⟨hLimit, run, hRun, hDigits⟩ := hFault
      refine ⟨hLimit, run, isInfix_of_joinLineEnds (fun hNewline => ?_) hRun, hDigits⟩
      rcases hDigits.1 _ hNewline with hDigit | hUnderscore
      · exact absurd hDigit (by decide)
      · exact absurd hUnderscore (by decide)
  | nesting => rwa [Explains, openings_joinLineEnds] at hFault

end Documents

section Limits

theorem joinLineEnds_of_not_mem {text : List Char} (h : '\r' ∉ text) :
    joinLineEnds text = text := by
  fun_induction joinLineEnds text with
  | case1 rest ih => simp at h
  | case2 c rest _ ih => rw [ih (mt (List.mem_cons_of_mem c) h)]
  | case3 => rfl

def setting (value : List Char) : List Char :=
  'x' :: '=' :: value

/-- A fault of a value is the fault of the document that sets it. -/
theorem read_setting {room : Nat} {value : List Char} {fault : Fault}
    (hStart : ∀ c ∈ value.head?, ¬isSpace c = true) (hReturn : '\r' ∉ value)
    (hFault : readValue (2 * value.length + 5) room value = .error fault) :
    read room (setting value) = .error fault := by
  have hSkip : skipSpace value = value := by
    cases value with
    | nil => rfl
    | cons c rest => exact List.dropWhile_cons_of_neg (hStart c rfl)
  have hKey : readKey (2 * value.length + 5) (setting value) = some (["x"], '=' :: value) := rfl
  have hLine : readLine (2 * value.length + 5) room ⟨[], .unmarked, []⟩ (setting value) =
      .error fault := by
    rw [readLine, hKey]
    simp only [hSkip, hFault]
  have hStatement : readStatement (2 * value.length + 5) room ⟨[], .unmarked, []⟩
      (setting value) = .error fault := by
    rw [← hLine]
    rfl
  have hHead : skipSpace (setting value) = setting value := rfl
  have hJoin : joinLineEnds (setting value) = setting value :=
    joinLineEnds_of_not_mem (by simpa [setting] using hReturn)
  have hStatements : readStatements (2 * value.length + 6) room ⟨[], .unmarked, []⟩
      (setting value) = .error fault := by
    unfold readStatements
    rw [hHead]
    split
    · next hNil => cases hNil
    · next hNewline => cases hNewline
    · rw [hStatement]
  have hSteps : stepsFor (setting value) = 2 * value.length + 6 := by
    simp only [stepsFor, setting, List.length_cons]
    omega
  rw [read, readWithin, hJoin, hSteps, hStatements]
  rfl

/-- Tables in each other, each the value of a setting of the one around it. -/
def nestedTables : Nat → List Char
  | 0 => []
  | depth + 1 => '\x7b' :: setting (nestedTables depth)

/-- The value alone runs out of room, whatever steps are left beyond two for each table. -/
theorem readValue_nestedTables {depth bound room : Nat} (hDepth : 0 < depth)
    (hBound : 2 * depth < bound) (hRoom : room < tableRoom * depth + spareRoom) :
    readValue bound room (nestedTables depth) = .error .nesting := by
  induction depth generalizing bound room with
  | zero => omega
  | succ depth ih =>
      obtain ⟨bound, rfl⟩ : ∃ less, bound = less + 2 := ⟨bound - 2, by omega⟩
      have hKey : readKey bound (setting (nestedTables depth)) =
          some (["x"], '=' :: nestedTables depth) := by
        obtain ⟨less, rfl⟩ : ∃ less, bound = less + 1 := ⟨bound - 1, by omega⟩
        rfl
      have hSkip : skipSpace (nestedTables depth) = nestedTables depth := by
        cases depth <;> rfl
      rw [nestedTables]
      unfold readValue
      simp only
      split
      · rfl
      · next hEnough =>
          have hInner : readValue bound (room - tableRoom) (nestedTables depth) =
              .error .nesting := by
            simp only [tableRoom, spareRoom] at hEnough hRoom ⊢
            exact ih (by omega) (by omega) (by simp only [tableRoom, spareRoom]; omega)
          have hFields : readFields (bound + 1) (room - tableRoom) ⟨[], .unmarked⟩
              (setting (nestedTables depth)) = .error .nesting := by
            unfold readFields
            rw [hKey]
            simp only [hSkip, hInner]
          have hStart : skipSpace (setting (nestedTables depth)) = setting (nestedTables depth) :=
            rfl
          rw [hStart]
          split
          · next hClose => cases hClose
          · rw [hFields]
            rfl

theorem moreDigits_nines (count : Nat) :
    moreDigits isDigit (List.replicate count '9') = (List.replicate count '9', []) := by
  induction count with
  | zero => rfl
  | succ count ih =>
      have hNine : isDigit '9' = true := by decide
      rw [List.replicate_succ, moreDigits, ih, if_pos hNine]
      intro c rest hUnderscore
      exact absurd hUnderscore (by decide)

theorem readDecimal_nines {count : Nat} (h : digitLimit < count + 1) :
    readDecimal (List.replicate (count + 1) '9') = some (.error (.longNumber (count + 1))) := by
  have hSign : readSign (List.replicate (count + 1) '9') =
      (false, List.replicate (count + 1) '9') := rfl
  have hWhole : readWhole (List.replicate (count + 1) '9') =
      some (List.replicate (count + 1) '9', []) := by
    have hNine : isDigit '9' = true := by decide
    rw [List.replicate_succ, readWhole, readDigits, moreDigits_nines, if_pos hNine]
    intro rest hZero
    exact absurd (List.cons.inj hZero).1 (by decide)
  unfold readDecimal
  rw [hSign]
  simp only [hWhole, readFraction, readExponent, List.isEmpty_nil, Option.isNone_none,
    Bool.and_self, if_true, List.length_replicate, if_pos h, gt_iff_lt]

/-- A number with too many digits is refused, with their count. -/
theorem readValue_nines {count bound room : Nat} (h : digitLimit < count) :
    readValue (bound + 1) room (List.replicate count '9') = .error (.longNumber count) := by
  -- five nines are neither a year with a dash behind it nor an hour
  obtain ⟨count, rfl⟩ : ∃ more, count = more + 5 :=
    ⟨count - 5, by simp only [digitLimit] at h; omega⟩
  have hDecimal : readDecimal (List.replicate (count + 5) '9') = _ := readDecimal_nines h
  have hBased : readBased (List.replicate (count + 5) '9') = none := rfl
  have hNumber : readValue (bound + 1) room (List.replicate (count + 5) '9') =
      readNumber (List.replicate (count + 5) '9') := rfl
  rw [hNumber, readNumber, hBased, hDecimal]

theorem length_nestedTables (depth : Nat) : (nestedTables depth).length = 3 * depth := by
  induction depth with
  | zero => rfl
  | succ depth ih =>
      simp only [nestedTables, setting, List.length_cons, ih]
      omega

theorem return_not_mem_nestedTables (depth : Nat) : '\r' ∉ nestedTables depth := by
  induction depth with
  | zero => simp [nestedTables]
  | succ depth ih => simpa [nestedTables, setting] using ih

/-- Tables in each other that need more room than there is run out of it. -/
theorem read_nestedTables {room depth : Nat} (h : room < tableRoom * depth + spareRoom)
    (hDepth : 0 < depth) : read room (setting (nestedTables depth)) = .error .nesting := by
  refine read_setting ?_ (return_not_mem_nestedTables depth) ?_
  · cases depth with
    | zero => simp [nestedTables]
    | succ depth => simp [nestedTables, isSpace]
  · refine readValue_nestedTables hDepth ?_ h
    rw [length_nestedTables]
    omega

/-- A whole number can be read with up to 4300 digits and no more. -/
theorem read_nines_iff (room count : Nat) :
    read room (setting (List.replicate count '9')) = .error (.longNumber count) ↔
      4300 < count := by
  constructor
  · intro hLong
    exact (read_explained _ _ _ hLong).1
  · intro hCount
    refine read_setting ?_ ?_ (readValue_nines hCount)
    · intro c hc
      rw [List.eq_of_mem_replicate (List.mem_of_mem_head? hc)]
      decide
    · intro hReturn
      exact absurd (List.eq_of_mem_replicate hReturn) (by decide)

end Limits

end SignatureIndex.Toml
