import SignatureIndex.Toml.Document

/-! Readers of settings leave an end of the text that they are given. -/
namespace SignatureIndex.Toml

/-- What is left by a reader, if it reads anything, is an end of the text. -/
def Leaves {α : Type} (cs : List Char) (read : Read α) : Prop :=
  ∀ value rest, read = some (value, rest) → rest <:+ cs

namespace Leaves

variable {α β : Type} {cs inner : List Char} {read : Read α}

theorem of_none : Leaves cs (none : Read α) := by
  intro value rest h
  cases h

theorem of_suffix {value : α} {rest : List Char} (hRest : rest <:+ cs) :
    Leaves cs (some (value, rest)) := by
  intro other after h
  cases h
  exact hRest

/-- A value that may be absent, with a rest. -/
theorem of_option {found : Option α} {rest : List Char} (hRest : rest <:+ cs) :
    Leaves cs (found.map (·, rest)) := by
  cases found with
  | none => exact of_none
  | some value => exact of_suffix hRest

theorem within (h : Leaves inner read) (hInner : inner <:+ cs) : Leaves cs read :=
  fun value rest hRead => (h value rest hRead).trans hInner

theorem map (f : α → β) (h : Leaves cs read) :
    Leaves cs (read.map fun (value, rest) => (f value, rest)) := by
  intro value rest hMap
  obtain ⟨⟨first, after⟩, hRead, hPair⟩ := Option.map_eq_some_iff.mp hMap
  rw [← (Prod.mk.inj hPair).2]
  exact h first after hRead

theorem bind {next : α × List Char → Read β} (h : Leaves cs read)
    (hNext : ∀ value rest, rest <:+ cs → Leaves cs (next (value, rest))) :
    Leaves cs (Option.bind read next) := by
  intro value rest hBind
  obtain ⟨⟨first, after⟩, hRead, hAfter⟩ := Option.bind_eq_some_iff.mp hBind
  exact hNext first after (h first after hRead) value rest hAfter

end Leaves

section Strings

theorem skipSpace_suffix (cs : List Char) : skipSpace cs <:+ cs :=
  List.dropWhile_suffix isSpace

theorem readCode_leaves (count : Nat) (cs : List Char) : Leaves cs (readCode count cs) := by
  unfold readCode
  simp only
  split
  · exact .of_none
  · split
    · exact .of_none
    · split
      · exact .of_suffix (List.drop_suffix count cs)
      · exact .of_none

theorem readEscape_leaves (cs : List Char) : Leaves cs (readEscape cs) := by
  unfold readEscape
  split
  · exact .of_none
  · exact (readCode_leaves _ _).within (List.suffix_cons _ _)
  · exact (readCode_leaves _ _).within (List.suffix_cons _ _)
  · exact .of_option (List.suffix_cons _ _)

theorem inFront_leaves {cs front : List Char} {read : Read (List Char)} (h : Leaves cs read) :
    Leaves cs (inFront front read) :=
  h.map (front ++ ·)

theorem readBasic_leaves (bound : Nat) (cs : List Char) : Leaves cs (readBasic bound cs) := by
  fun_induction readBasic bound cs with
  | case1 => exact .of_none
  | case2 => exact .of_none
  | case3 => exact .of_suffix (List.suffix_cons _ _)
  | case4 => exact .of_none
  | case5 bound rest c after hEscape ih =>
      exact inFront_leaves <| ih.within <|
        (readEscape_leaves rest c after hEscape).trans (List.suffix_cons _ _)
  | case6 => exact .of_none
  | case7 bound c rest _ _ _ ih => exact inFront_leaves (ih.within (List.suffix_cons c rest))

theorem afterLineEnd_suffix {cs rest : List Char} (h : afterLineEnd cs = some rest) :
    rest <:+ cs := by
  unfold afterLineEnd at h
  split at h
  · cases h
    exact List.nil_suffix
  · next after hSkip =>
      cases h
      have hAfter : '\n' :: after <:+ cs := hSkip ▸ skipSpace_suffix cs
      exact (List.dropWhile_suffix _).trans ((List.suffix_cons '\n' after).trans hAfter)
  · cases h

theorem readBasicLines_leaves (bound : Nat) (cs : List Char) :
    Leaves cs (readBasicLines bound cs) := by
  fun_induction readBasicLines bound cs with
  | case1 => exact .of_none
  | case2 => exact .of_none
  | case3 rest => exact .of_suffix (List.suffix_append ['"', '"', '"'] _)
  | case4 => exact .of_none
  | case5 bound rest _ after hEnd ih =>
      exact ih.within ((afterLineEnd_suffix hEnd).trans (List.suffix_cons _ rest))
  | case6 => exact .of_none
  | case7 bound rest _ c after hEscape ih =>
      exact inFront_leaves <| ih.within <|
        (readEscape_leaves rest c after hEscape).trans (List.suffix_cons _ _)
  | case8 => exact .of_none
  | case9 bound c rest _ _ _ ih => exact inFront_leaves (ih.within (List.suffix_cons c rest))

theorem readLiteral_leaves (cs : List Char) : Leaves cs (readLiteral cs) := by
  fun_induction readLiteral cs with
  | case1 => exact .of_none
  | case2 rest => exact .of_suffix (List.suffix_cons _ rest)
  | case3 => exact .of_none
  | case4 c rest _ _ ih => exact inFront_leaves (ih.within (List.suffix_cons c rest))

theorem readLiteralLines_leaves (cs : List Char) : Leaves cs (readLiteralLines cs) := by
  fun_induction readLiteralLines cs with
  | case1 => exact .of_none
  | case2 rest => exact .of_suffix (List.suffix_append ['\'', '\'', '\''] rest)
  | case3 => exact .of_none
  | case4 c rest _ _ ih => exact inFront_leaves (ih.within (List.suffix_cons c rest))

theorem takeExtraQuotes_leaves {cs : List Char} (quote : Char) {read : Read (List Char)}
    (h : Leaves cs read) : Leaves cs (takeExtraQuotes quote read) := by
  cases read with
  | none => exact .of_none
  | some found =>
      obtain ⟨text, rest⟩ := found
      have hRest := h text rest rfl
      simp only [takeExtraQuotes, Option.map_some]
      split
      · next c d after =>
          split
          · exact .of_suffix ((List.suffix_append [c, d] after).trans hRest)
          · split
            · exact .of_suffix ((List.suffix_cons c (d :: after)).trans hRest)
            · exact .of_suffix hRest
      · split
        · exact .of_suffix List.nil_suffix
        · exact .of_suffix hRest
      · exact .of_suffix hRest

theorem dropNewline_suffix (cs : List Char) : dropNewline cs <:+ cs := by
  unfold dropNewline
  split
  · exact List.suffix_cons _ _
  · exact List.suffix_rfl

theorem readText_leaves (bound : Nat) (cs : List Char) : Leaves cs (readText bound cs) := by
  unfold readText
  split
  · next rest =>
      exact takeExtraQuotes_leaves '"' <| (readBasicLines_leaves _ _).within <|
        (dropNewline_suffix rest).trans (List.suffix_append ['"', '"', '"'] rest)
  · exact (readBasic_leaves _ _).within (List.suffix_cons _ _)
  · next rest =>
      exact takeExtraQuotes_leaves '\'' <| (readLiteralLines_leaves _).within <|
        (dropNewline_suffix rest).trans (List.suffix_append ['\'', '\'', '\''] rest)
  · exact (readLiteral_leaves _).within (List.suffix_cons _ _)
  · exact .of_none

end Strings

section Numbers

/-- A run of characters of a class with underscores, from which so many of the class are taken. -/
def IsRun (accepts : Char → Bool) (count : Nat) (run : List Char) : Prop :=
  (∀ c ∈ run, accepts c = true ∨ c = '_') ∧ run.countP accepts = count

variable {accepts : Char → Bool}

theorem isRun_nil : IsRun accepts 0 [] :=
  ⟨by simp, rfl⟩

theorem IsRun.cons {count : Nat} {run : List Char} {c : Char} (h : IsRun accepts count run)
    (hc : accepts c = true) : IsRun accepts (count + 1) (c :: run) :=
  ⟨List.forall_mem_cons.mpr ⟨.inl hc, h.1⟩, by rw [List.countP_cons_of_pos hc, h.2]⟩

theorem IsRun.cons_underscore {count : Nat} {run : List Char} (h : IsRun accepts count run)
    (hUnderscore : accepts '_' = false) : IsRun accepts count ('_' :: run) :=
  ⟨List.forall_mem_cons.mpr ⟨.inr rfl, h.1⟩,
    by rw [List.countP_cons_of_neg (by simp [hUnderscore]), h.2]⟩

/-- Digits are taken with the underscores between them. -/
theorem exists_run_of_moreDigits (hUnderscore : accepts '_' = false) (cs : List Char) :
    ∃ run, cs = run ++ (moreDigits accepts cs).2 ∧
      IsRun accepts (moreDigits accepts cs).1.length run := by
  fun_induction moreDigits accepts cs with
  | case1 c rest hc digits after hMore ih =>
      obtain ⟨run, hRest, hRun⟩ := ih
      rw [hMore] at hRest hRun
      exact ⟨'_' :: c :: run, by simp [hRest], (hRun.cons hc).cons_underscore hUnderscore⟩
  | case2 c rest hc => exact ⟨[], rfl, isRun_nil⟩
  | case3 c rest _ hc digits after hMore ih =>
      obtain ⟨run, hRest, hRun⟩ := ih
      rw [hMore] at hRest hRun
      exact ⟨c :: run, by simp [hRest], hRun.cons hc⟩
  | case4 c rest _ hc => exact ⟨[], rfl, isRun_nil⟩
  | case5 => exact ⟨[], rfl, isRun_nil⟩

/-- The digits that are read are the run at the front, without its underscores. -/
theorem exists_run_of_readDigits (hUnderscore : accepts '_' = false) {cs digits rest : List Char}
    (h : readDigits accepts cs = some (digits, rest)) :
    ∃ run, cs = run ++ rest ∧ IsRun accepts digits.length run := by
  unfold readDigits at h
  split at h
  · next c more =>
      split at h
      · next hc =>
          obtain ⟨run, hMore, hRun⟩ := exists_run_of_moreDigits hUnderscore more
          cases h
          exact ⟨c :: run, congrArg (c :: ·) hMore, hRun.cons hc⟩
      · cases h
  · cases h

theorem readDigits_leaves (hUnderscore : accepts '_' = false) (cs : List Char) :
    Leaves cs (readDigits accepts cs) := by
  intro digits rest h
  obtain ⟨run, rfl, -⟩ := exists_run_of_readDigits hUnderscore h
  exact List.suffix_append run rest

theorem isDigit_underscore : isDigit '_' = false := by
  decide

theorem readBased_leaves (cs : List Char) : Leaves cs (readBased cs) := by
  have hUnderscore : hexValue? '_' = none := by decide
  have hDigits (base : Nat) (rest : List Char) :=
    (@readDigits_leaves (fun c => (hexValue? c).any (· < base)) (by rw [hUnderscore]; rfl) rest).map
      fun digits => Value.integer (numberOf base digits)
  unfold readBased
  simp only
  split
  · next rest => exact (hDigits 16 rest).within (List.suffix_append ['0', 'x'] rest)
  · next rest => exact (hDigits 8 rest).within (List.suffix_append ['0', 'o'] rest)
  · next rest => exact (hDigits 2 rest).within (List.suffix_append ['0', 'b'] rest)
  · exact .of_none

theorem readSign_suffix (cs : List Char) : (readSign cs).2 <:+ cs := by
  unfold readSign
  split
  · exact List.suffix_cons _ _
  · exact List.suffix_cons _ _
  · exact List.suffix_rfl

theorem exists_run_of_readWhole {cs whole rest : List Char}
    (h : readWhole cs = some (whole, rest)) :
    ∃ run, cs = run ++ rest ∧ IsRun isDigit whole.length run := by
  unfold readWhole at h
  split at h
  · next rest =>
      cases h
      exact ⟨['0'], rfl, isRun_nil.cons (by decide)⟩
  · exact exists_run_of_readDigits isDigit_underscore h

theorem readFraction_suffix (cs : List Char) : (readFraction cs).2 <:+ cs := by
  unfold readFraction
  split
  · next rest =>
      cases hDigits : readDigits isDigit rest with
      | none => exact List.suffix_rfl
      | some found =>
          exact (readDigits_leaves isDigit_underscore rest _ _ hDigits).trans
            (List.suffix_cons '.' rest)
  · exact List.suffix_rfl

theorem readExponent_suffix (cs : List Char) : (readExponent cs).2 <:+ cs := by
  unfold readExponent
  split
  · exact List.suffix_rfl
  · next c rest =>
      split
      · simp only
        split
        · exact List.suffix_rfl
        · next digits final hDigits =>
            exact (readDigits_leaves isDigit_underscore _ _ _ hDigits).trans <|
              (readSign_suffix rest).trans (List.suffix_cons c rest)
      · exact List.suffix_rfl

theorem readNamed_leaves (cs : List Char) : Leaves cs (readNamed cs) := by
  have hSign := readSign_suffix cs
  unfold readNamed
  simp only
  split
  · next after hRest =>
      rw [hRest] at hSign
      exact .of_suffix ((List.suffix_append ['i', 'n', 'f'] after).trans hSign)
  · next after hRest =>
      rw [hRest] at hSign
      exact .of_suffix ((List.suffix_append ['n', 'a', 'n'] after).trans hSign)
  · exact .of_none

end Numbers

section Moments

theorem readField_leaves (count low high : Nat) (cs : List Char) :
    Leaves cs (readField count low high cs) := by
  unfold readField
  simp only
  split
  · split
    · exact .of_suffix (List.drop_suffix count cs)
    · exact .of_none
  · exact .of_none

theorem after?_suffix {c : Char} {cs rest : List Char} (h : after? c cs = some rest) :
    rest <:+ cs := by
  unfold after? at h
  split at h
  · split at h
    · cases h
      exact List.suffix_cons _ _
    · cases h
  · cases h

/-- Behind a mark, a reader leaves an end of the text too. -/
theorem after?_leaves {α : Type} {c : Char} {cs rest : List Char} (hRest : rest <:+ cs)
    {next : List Char → Read α} (hNext : ∀ after, after <:+ cs → Leaves cs (next after)) :
    Leaves cs (Option.bind (after? c rest) next) := by
  intro value final h
  obtain ⟨after, hAfter, hFinal⟩ := Option.bind_eq_some_iff.mp h
  exact hNext after ((after?_suffix hAfter).trans hRest) value final hFinal

theorem readMicroseconds_suffix (cs : List Char) : (readMicroseconds cs).2 <:+ cs := by
  unfold readMicroseconds
  split
  · next rest =>
      split
      · exact List.suffix_rfl
      · exact (List.dropWhile_suffix isDigit).trans (List.suffix_cons '.' rest)
  · exact List.suffix_rfl

theorem readTime_leaves (cs : List Char) : Leaves cs (readTime cs) := by
  refine .bind (readField_leaves _ _ _ cs) fun hour rest hRest => ?_
  refine after?_leaves hRest fun rest hRest => ?_
  refine .bind ((readField_leaves _ _ _ rest).within hRest) fun minute rest hRest => ?_
  refine after?_leaves hRest fun rest hRest => ?_
  refine .bind ((readField_leaves _ _ _ rest).within hRest) fun second rest hRest => ?_
  exact .of_suffix ((readMicroseconds_suffix rest).trans hRest)

theorem readDate_leaves (cs : List Char) : Leaves cs (readDate cs) := by
  refine .bind (readField_leaves _ _ _ cs) fun year rest hRest => ?_
  refine after?_leaves hRest fun rest hRest => ?_
  refine .bind ((readField_leaves _ _ _ rest).within hRest) fun month rest hRest => ?_
  refine after?_leaves hRest fun rest hRest => ?_
  refine .bind ((readField_leaves _ _ _ rest).within hRest) fun day rest hRest => ?_
  exact .of_suffix hRest

theorem readDistance_leaves (cs : List Char) : Leaves cs (readDistance cs) := by
  refine .bind (readField_leaves _ _ _ cs) fun hour rest hRest => ?_
  refine after?_leaves hRest fun rest hRest => ?_
  refine .bind ((readField_leaves _ _ _ rest).within hRest) fun minute rest hRest => ?_
  exact .of_suffix hRest

theorem readOffset_suffix (cs : List Char) : (readOffset cs).2 <:+ cs := by
  unfold readOffset
  split
  · exact List.suffix_rfl
  · next c rest =>
      split
      · exact List.suffix_cons c rest
      · split
        · split
          · exact List.suffix_rfl
          · next minutes after hDistance =>
              exact (readDistance_leaves rest _ _ hDistance).trans (List.suffix_cons c rest)
        · exact List.suffix_rfl

theorem readTimeAfterDate_leaves (cs : List Char) : Leaves cs (readTimeAfterDate cs) := by
  unfold readTimeAfterDate
  split
  · exact .of_none
  · next c rest =>
      split
      · exact (readTime_leaves rest).within (List.suffix_cons c rest)
      · exact .of_none

theorem readMoment_leaves (cs : List Char) : Leaves cs (readMoment cs) := by
  unfold readMoment
  split
  · exact (readTime_leaves cs).map fun time => some (Moment.time time)
  · next date afterDate hDate =>
      have hAfterDate := readDate_leaves cs date afterDate hDate
      cases hTime : readTimeAfterDate afterDate with
      | none => exact .of_suffix hAfterDate
      | some found =>
          have hAfterTime := readTimeAfterDate_leaves afterDate found.1 found.2 hTime
          exact .of_suffix ((readOffset_suffix found.2).trans (hAfterTime.trans hAfterDate))

end Moments

section Keys

theorem readKeyPart_leaves (bound : Nat) (cs : List Char) :
    Leaves cs (readKeyPart bound cs) := by
  unfold readKeyPart
  split
  · exact .of_none
  · exact ((readBasic_leaves _ _).map _).within (List.suffix_cons _ _)
  · exact ((readLiteral_leaves _).map _).within (List.suffix_cons _ _)
  · split
    · exact .of_suffix (List.dropWhile_suffix isBareKeyChar)
    · exact .of_none

theorem readKey_leaves (bound : Nat) (cs : List Char) : Leaves cs (readKey bound cs) := by
  induction bound generalizing cs with
  | zero => exact .of_none
  | succ bound ih =>
      rw [readKey]
      split
      · exact .of_none
      · next part rest hPart =>
          have hRest := (skipSpace_suffix rest).trans (readKeyPart_leaves bound cs part rest hPart)
          split
          · next more hDot =>
              rw [hDot] at hRest
              exact ((ih (skipSpace more)).map _).within <|
                (skipSpace_suffix more).trans ((List.suffix_cons '.' more).trans hRest)
          · exact .of_suffix hRest

theorem skipComment_suffix {cs rest : List Char} (h : skipComment cs = some rest) :
    rest <:+ cs := by
  unfold skipComment at h
  split at h
  · next after =>
      split at h
      · cases h
      · cases h
        exact (List.dropWhile_suffix _).trans (List.suffix_cons '#' after)
  · cases h
    exact List.suffix_rfl

theorem skipFiller_suffix {bound : Nat} {cs rest : List Char}
    (h : skipFiller bound cs = some rest) : rest <:+ cs := by
  induction bound generalizing cs with
  | zero =>
      cases h
      exact List.suffix_rfl
  | succ bound ih =>
      have hBlank := List.dropWhile_suffix isSpaceOrNewline (l := cs)
      rw [skipFiller] at h
      split at h
      · next comment hComment =>
          rw [hComment] at hBlank
          split at h
          · cases h
          · next after hAfter => exact (ih h).trans ((skipComment_suffix hAfter).trans hBlank)
      · cases h
        exact hBlank

end Keys

end SignatureIndex.Toml
