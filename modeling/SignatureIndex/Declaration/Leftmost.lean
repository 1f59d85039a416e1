import SignatureIndex.Declaration

/-! The search for the leftmost declaration stops where no parentheses are left. It finds what a
search through all places of the line finds. -/
namespace SignatureIndex.Declaration

open Text

/-- Parentheses close in a text if it holds a closing one. -/
theorem parentheses_snd (text : List Char) : (parentheses text).2 = text.contains ')' := by
  induction text with
  | nil => rfl
  | cons c rest ih =>
      by_cases hc : c = ')'
      · simp [parentheses, hc]
      · have hEdge : (parentheses (c :: rest)).2 = (parentheses rest).2 := by
          simp only [parentheses, List.foldr_cons, hc, if_false]
          split <;> rfl
        rw [hEdge, ih]
        simp [Ne.symm hc]

/-- The opening parentheses of a text with one more character in front. -/
theorem parentheses_fst_cons (c : Char) (rest : List Char) :
    (parentheses (c :: rest)).1 =
      (parentheses rest).1 + if c = '(' ∧ ')' ∈ rest then 1 else 0 := by
  have hCloses := parentheses_snd rest
  by_cases hc : c = ')'
  · subst hc
    simp [parentheses]
  · by_cases hOpen : c = '('
    · subst hOpen
      by_cases hMem : ')' ∈ rest
      · simp [parentheses, hMem] at hCloses ⊢
        simp [hCloses]
      · simp [parentheses, hMem] at hCloses ⊢
        simp [hCloses]
    · simp [parentheses, hc, hOpen]

/-- Without a closing parenthesis none is counted. -/
theorem parentheses_fst_eq_zero {text : List Char} (h : ')' ∉ text) :
    (parentheses text).1 = 0 := by
  induction text with
  | nil => rfl
  | cons c rest ih =>
      have hRest : ')' ∉ rest := fun hMem => h (List.mem_cons_of_mem c hMem)
      simp [parentheses_fst_cons, ih hRest, hRest]

/-- A text without parentheses to be counted has none that open and close. -/
theorem not_mem_of_parentheses_eq_zero {text : List Char} (h : (parentheses text).1 = 0)
    (rest : List Char) (hRest : '(' :: rest <:+ text) : ')' ∉ rest := by
  induction text with
  | nil => simp at hRest
  | cons c text ih =>
      rw [parentheses_fst_cons] at h
      rcases List.suffix_cons_iff.mp hRest with hSame | hLater
      · obtain ⟨rfl, rfl⟩ := List.cons.inj hSame
        intro hMem
        simp [hMem] at h
      · exact ih (by omega) hLater

/-- Without parentheses there is no declaration. -/
theorem readAt?_eq_none (place : Cursor) (h : (parentheses place.rest).1 = 0) :
    readAt? place = none := by
  refine Pattern.run_eq_none _ _ _ fun typeStart hTypeStart => ?_
  unfold readTyped?
  refine Pattern.run_eq_none _ _ _ fun typeEnd hTypeEnd => ?_
  refine Pattern.run_eq_none _ _ _ fun nameStart hNameStart => ?_
  refine Pattern.run_eq_none _ _ _ fun nameEnd hNameEnd => ?_
  refine Pattern.run_eq_none blanks _ _ fun opens hOpens => ?_
  have hWithin : opens.rest <:+ place.rest :=
    hOpens.trans (hNameEnd.trans (hNameStart.trans (hTypeEnd.trans hTypeStart)))
  refine Pattern.run_char_eq_none '(' _ _ fun rest hRest => ?_
  refine Pattern.run_eq_none _ _ _ fun bodyEnd hBodyEnd => ?_
  change (Pattern.both (.one (· = ')')) _).run bodyEnd _ = none
  rw [Pattern.run]
  refine Pattern.run_char_eq_none ')' _ _ fun after hAfter => ?_
  exact absurd (hBodyEnd.subset (hAfter ▸ List.mem_cons_self))
    (not_mem_of_parentheses_eq_zero h rest (hRest ▸ hWithin))

/-- Where no parentheses are left, no place has a declaration. -/
theorem firstAt_eq_none (text : List Char) (before : Option Char)
    (h : (parentheses text).1 = 0) : Cursor.firstAt readAt? before text = none := by
  induction text generalizing before with
  | nil => exact readAt?_eq_none ⟨before, []⟩ h
  | cons c rest ih =>
      have hRest : (parentheses rest).1 = 0 := by
        rw [parentheses_fst_cons] at h
        omega
      simp only [Cursor.firstAt, readAt?_eq_none ⟨before, c :: rest⟩ h]
      exact ih (some c) hRest

/-- Stopping where no parentheses are left loses no declaration. -/
theorem readFrom_eq_firstAt (text : List Char) (before : Option Char) :
    readFrom (parentheses text).1 before text = Cursor.firstAt readAt? before text := by
  induction text generalizing before with
  | nil => exact (readAt?_eq_none ⟨before, []⟩ rfl).symm
  | cons c rest ih =>
      by_cases hZero : (parentheses (c :: rest)).1 = 0
      · rw [firstAt_eq_none _ _ hZero]
        simp [readFrom, hZero]
      · have hLeft : (if c = '(' then (parentheses (c :: rest)).1 - 1
            else (parentheses (c :: rest)).1) = (parentheses rest).1 := by
          rw [parentheses_fst_cons] at hZero ⊢
          by_cases hOpen : c = '('
          · by_cases hMem : ')' ∈ rest
            · simp [hOpen, hMem]
            · simp [parentheses_fst_eq_zero hMem, hMem] at hZero
          · simp [hOpen]
        simp only [readFrom, hZero, if_false, hLeft, ih, Cursor.firstAt]
        cases readAt? ⟨before, c :: rest⟩ <;> rfl

/-- The leftmost declaration is the first that is found at any place. -/
theorem read?_eq_findFirst (line : List Char) :
    read? line = (Cursor.start line).findFirst readAt? :=
  readFrom_eq_firstAt line none

end SignatureIndex.Declaration
