import SignatureIndex.Proofs.TomlFault

/-! The steps that the readers of settings are allowed. Running out of steps looks like a text that
is not in the format, so it has to be excluded: for each reader with a bound, the length of the text
says how many steps are enough, and a whole document is read with as many. -/
namespace SignatureIndex.Toml

/-- From so many steps on, one more changes nothing. -/
def Enough {α : Type} (least : Nat) (read : Nat → α) : Prop :=
  ∀ bound, least ≤ bound → read (bound + 1) = read bound

/-- From enough steps on, all numbers of steps come to the same. -/
theorem Enough.eq {α : Type} {least bound other : Nat} {read : Nat → α} (h : Enough least read)
    (hBound : least ≤ bound) (hOther : least ≤ other) : read other = read bound := by
  have hAll (extra : Nat) : read (least + extra) = read least := by
    induction extra with
    | zero => rfl
    | succ extra ih => rw [← Nat.add_assoc, h (least + extra) (Nat.le_add_right _ _), ih]
  rw [← Nat.add_sub_of_le hBound, ← Nat.add_sub_of_le hOther, hAll, hAll]

section Strings

theorem readBasic_enough (cs : List Char) : Enough cs.length (readBasic · cs) := by
  intro bound hBound
  beta_reduce
  fun_induction readBasic bound cs with
  | case1 cs =>
      obtain rfl : cs = [] := List.eq_nil_of_length_eq_zero (Nat.le_zero.mp hBound)
      rfl
  | case2 => rfl
  | case3 bound rest => rw [readBasic]
  | case4 bound rest hEscape => rw [readBasic, hEscape]
  | case5 bound rest c after hEscape ih =>
      have hShorter := (readEscape_leaves rest c after hEscape).length_le
      rw [readBasic, hEscape]
      simp only [List.length_cons] at hBound ⊢
      rw [ih (by omega)]
  | case6 bound c rest hQuote hBackslash hControl =>
      rw [readBasic, if_pos hControl]
      · exact hQuote
      · exact hBackslash
  | case7 bound c rest hQuote hBackslash hControl ih =>
      rw [readBasic, if_neg hControl, ih (Nat.le_of_succ_le_succ hBound)]
      · exact hQuote
      · exact hBackslash

theorem readBasicLines_enough (cs : List Char) : Enough cs.length (readBasicLines · cs) := by
  intro bound hBound
  beta_reduce
  fun_induction readBasicLines bound cs with
  | case1 cs =>
      obtain rfl : cs = [] := List.eq_nil_of_length_eq_zero (Nat.le_zero.mp hBound)
      rfl
  | case2 => rfl
  | case3 bound rest => rw [readBasicLines]
  | case4 bound rest hBlank hEnd => rw [readBasicLines, if_pos hBlank, hEnd]
  | case5 bound rest hBlank after hEnd ih =>
      have hShorter := (afterLineEnd_suffix hEnd).length_le
      rw [readBasicLines, if_pos hBlank, hEnd]
      simp only [List.length_cons] at hBound ⊢
      rw [ih (by omega)]
  | case6 bound rest hBlank hEscape => rw [readBasicLines, if_neg hBlank, hEscape]
  | case7 bound rest hBlank c after hEscape ih =>
      have hShorter := (readEscape_leaves rest c after hEscape).length_le
      rw [readBasicLines, if_neg hBlank, hEscape]
      simp only [List.length_cons] at hBound ⊢
      rw [ih (by omega)]
  | case8 bound c rest hQuotes hBackslash hControl =>
      rw [readBasicLines, if_pos hControl]
      · exact hQuotes
      · exact hBackslash
  | case9 bound c rest hQuotes hBackslash hControl ih =>
      rw [readBasicLines, if_neg hControl, ih (Nat.le_of_succ_le_succ hBound)]
      · exact hQuotes
      · exact hBackslash

theorem readText_enough (cs : List Char) : Enough cs.length (readText · cs) := by
  intro bound hBound
  beta_reduce
  unfold readText
  split
  · next rest =>
      have hDrop := (dropNewline_suffix rest).length_le
      simp only [List.length_cons] at hBound
      have hSame : readBasicLines (bound + 1) (dropNewline rest) = _ :=
        readBasicLines_enough (dropNewline rest) bound (by omega)
      rw [hSame]
  · next rest _ =>
      rw [List.length_cons] at hBound
      exact readBasic_enough rest bound (by omega)
  · rfl
  · rfl
  · rfl

theorem readScalar_enough (cs : List Char) : Enough cs.length (readScalar · cs) := by
  intro bound hBound
  have hText : readText (bound + 1) cs = readText bound cs := readText_enough cs bound hBound
  beta_reduce
  unfold readScalar
  rw [hText]

end Strings

section Documents

theorem readKeyPart_enough (cs : List Char) : Enough cs.length (readKeyPart · cs) := by
  intro bound hBound
  beta_reduce
  unfold readKeyPart
  split
  · rfl
  · next rest =>
      rw [List.length_cons] at hBound
      have hSame : readBasic (bound + 1) rest = readBasic bound rest :=
        readBasic_enough rest bound (by omega)
      rw [hSame]
  · rfl
  · rfl

theorem readKey_enough (cs : List Char) : Enough (cs.length + 1) (readKey · cs) := by
  intro bound hBound
  beta_reduce
  induction bound generalizing cs with
  | zero => cases hBound
  | succ bound ih =>
      have hSame : readKeyPart (bound + 1) cs = readKeyPart bound cs :=
        readKeyPart_enough cs bound (by omega)
      rw [readKey, readKey, hSame]
      cases hPart : readKeyPart bound cs with
      | none => rfl
      | some found =>
          obtain ⟨part, rest⟩ := found
          have hPartRest := readKeyPart_leaves bound cs part rest hPart
          have hSpace := ((skipSpace_suffix rest).trans hPartRest).length_le
          simp only
          split
          · next more hDot =>
              have hMore := (skipSpace_suffix more).length_le
              rw [hDot, List.length_cons] at hSpace
              rw [ih (skipSpace more) (by omega)]
          · rfl

theorem skipFiller_enough (cs : List Char) : Enough cs.length (skipFiller · cs) := by
  intro bound hBound
  beta_reduce
  induction bound generalizing cs with
  | zero =>
      obtain rfl : cs = [] := List.eq_nil_of_length_eq_zero (Nat.le_zero.mp hBound)
      rfl
  | succ bound ih =>
      have hDrop := (List.dropWhile_suffix isSpaceOrNewline (l := cs)).length_le
      rw [skipFiller, skipFiller]
      split
      · next rest hMark =>
          rw [hMark, List.length_cons] at hDrop
          rw [skipComment]
          split
          · rfl
          · next after hComment =>
              split at hComment
              · cases hComment
              · cases hComment
                have hAfter := (List.dropWhile_suffix (· ≠ '\n') (l := rest)).length_le
                exact ih _ (by omega)
      · rfl

/-- With so many steps, one more changes nothing for the texts that are short enough. The reader of
items calls that of a value on the same text, so it needs one step more. -/
structure Covers (bound : Nat) : Prop where
  value : ∀ room cs, 2 * cs.length + 1 ≤ bound →
    readValue (bound + 1) room cs = readValue bound room cs
  items : ∀ room cs, 2 * cs.length + 2 ≤ bound →
    readItems (bound + 1) room cs = readItems bound room cs
  fields : ∀ room inline cs, 2 * cs.length + 2 ≤ bound →
    readFields (bound + 1) room inline cs = readFields bound room inline cs

namespace Covers

variable {bound : Nat}

/-- A value takes two steps for each of its characters and one for itself. -/
theorem readValue_succ (h : Covers bound) (room : Nat) (cs : List Char)
    (hBound : 2 * cs.length + 1 ≤ bound + 1) :
    readValue (bound + 2) room cs = readValue (bound + 1) room cs := by
  unfold readValue
  split
  · next rest =>
      rw [List.length_cons] at hBound
      have hFiller : skipFiller (bound + 1) rest = skipFiller bound rest :=
        skipFiller_enough rest bound (by omega)
      rw [hFiller]
      split
      · rfl
      · split
        · rfl
        · rfl
        · next items _ hSkip =>
            have hShorter := (skipFiller_suffix hSkip).length_le
            rw [h.items (room - listRoom) items (by omega)]
  · next rest =>
      have hShorter := (skipSpace_suffix rest).length_le
      rw [List.length_cons] at hBound
      split
      · rfl
      · split
        · rfl
        · rw [h.fields (room - tableRoom) _ (skipSpace rest) (by omega)]
  · exact readScalar_enough cs bound (by omega)

theorem readItems_succ (h : Covers bound) (room : Nat) (cs : List Char)
    (hBound : 2 * cs.length + 2 ≤ bound + 1) :
    readItems (bound + 2) room cs = readItems (bound + 1) room cs := by
  unfold readItems
  rw [h.value room cs (by omega)]
  split
  · rfl
  · next value rest hRead =>
      have hRest := (((readers_read bound).1 room cs).leaves value rest hRead).length_le
      have hFiller : skipFiller (bound + 1) rest = skipFiller bound rest :=
        skipFiller_enough rest bound (by omega)
      rw [hFiller]
      split
      · rfl
      · next more hSkip =>
          have hMore := (skipFiller_suffix hSkip).length_le
          rw [List.length_cons] at hMore
          have hNext : skipFiller (bound + 1) more = skipFiller bound more :=
            skipFiller_enough more bound (by omega)
          rw [hNext]
          split
          · rfl
          · rfl
          · next items _ hItems =>
              have hShorter := (skipFiller_suffix hItems).length_le
              rw [h.items room items (by omega)]
      · rfl

theorem readFields_succ (h : Covers bound) (room : Nat) (inline : Inline) (cs : List Char)
    (hBound : 2 * cs.length + 2 ≤ bound + 1) :
    readFields (bound + 2) room inline cs = readFields (bound + 1) room inline cs := by
  have hSame : readKey (bound + 1) cs = readKey bound cs := readKey_enough cs bound (by omega)
  unfold readFields
  rw [hSame]
  split
  · next key rest hKey =>
      have hRest := (readKey_leaves _ cs key _ hKey).length_le
      have hStart := (skipSpace_suffix rest).length_le
      rw [List.length_cons] at hRest
      rw [h.value room (skipSpace rest) (by omega)]
      split
      · rfl
      · next value afterValue hRead =>
          have hLeft := (((readers_read bound).1 room _).leaves value afterValue hRead).length_le
          have hAfter := (skipSpace_suffix afterValue).length_le
          split
          · rfl
          · split
            · rfl
            · next more hComma =>
                have hMore := (skipSpace_suffix more).length_le
                rw [hComma, List.length_cons] at hAfter
                exact h.fields room _ (skipSpace more) (by omega)
            · rfl
  · rfl

end Covers

/-- Whatever the bound, every reader whose text it covers has enough steps. -/
theorem covers (bound : Nat) : Covers bound := by
  induction bound with
  | zero => exact ⟨fun _ _ h => by omega, fun _ _ h => by omega, fun _ _ _ h => by omega⟩
  | succ bound ih => exact ⟨ih.readValue_succ, ih.readItems_succ, ih.readFields_succ⟩

theorem readStatement_enough (room : Nat) (state : State) (cs : List Char) :
    Enough (2 * cs.length + 1) (readStatement · room state cs) := by
  intro bound hBound
  have hKey {inner : List Char} (hInner : inner <:+ cs) :
      readKey (bound + 1) inner = readKey bound inner := by
    have hShorter := hInner.length_le
    exact readKey_enough inner bound (by omega)
  beta_reduce
  unfold readStatement
  split
  · rfl
  · rfl
  · next rest =>
      have hRest := List.suffix_cons '[' rest
      unfold readHeader
      simp only
      split
      · next inner =>
          rw [hKey ((skipSpace_suffix inner).trans ((List.suffix_cons '[' inner).trans hRest))]
      · rw [hKey ((skipSpace_suffix rest).trans hRest)]
  · split
    · unfold readLine
      rw [hKey List.suffix_rfl]
      split
      · next key rest hRead =>
          have hRest := (readKey_leaves _ _ key _ hRead).length_le
          have hShorter := (skipSpace_suffix rest).length_le
          rw [List.length_cons] at hRest
          rw [(covers bound).value room (skipSpace rest) (by omega)]
      · rfl
    · rfl

/-- Two steps for each character and two more are enough for the statements of a text. -/
theorem readStatements_enough (room : Nat) (state : State) (cs : List Char) :
    Enough (2 * cs.length + 2) (readStatements · room state cs) := by
  intro bound hBound
  beta_reduce
  induction bound generalizing state cs with
  | zero => cases hBound
  | succ bound ih =>
      have hSpace := (skipSpace_suffix cs).length_le
      have hStatement : readStatement (bound + 1) room state (skipSpace cs) =
          readStatement bound room state (skipSpace cs) :=
        readStatement_enough room state (skipSpace cs) bound (by omega)
      unfold readStatements
      split
      · rfl
      · next rest hSkip =>
          rw [hSkip, List.length_cons] at hSpace
          exact ih state rest (by omega)
      · rw [hStatement]
        split
        · rfl
        · next following rest hRead =>
            have hLeft :=
              (readStatement_reads bound room state (skipSpace cs)).leaves following rest hRead
            have hRest := ((skipSpace_suffix rest).trans hLeft).length_le
            split
            · rfl
            · rfl
            · next after hComment =>
                have hAfter := (skipComment_suffix hComment).length_le
                rw [List.length_cons] at hAfter
                exact ih following after (by omega)
            · rfl

theorem length_joinLineEnds_le (text : List Char) :
    (joinLineEnds text).length ≤ text.length := by
  fun_induction joinLineEnds text with
  | case1 rest ih =>
      simp only [List.length_cons]
      omega
  | case2 c rest _ ih => simpa using ih
  | case3 => exact Nat.le_refl _

/-- No text is refused because the steps run out: more of them would give the same. -/
theorem readWithin_eq_read (room : Nat) {bound : Nat} {text : List Char}
    (h : stepsFor text ≤ bound) : readWithin bound room text = read room text := by
  have hJoined := length_joinLineEnds_le text
  have hLeast : 2 * (joinLineEnds text).length + 2 ≤ stepsFor text := by
    rw [stepsFor]
    omega
  have hSame := (readStatements_enough room ⟨[], .unmarked, []⟩ (joinLineEnds text)).eq hLeast
    (hLeast.trans h)
  rw [read, readWithin, hSame, readWithin]

end Documents

end SignatureIndex.Toml
