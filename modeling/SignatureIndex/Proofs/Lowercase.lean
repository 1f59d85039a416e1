import SignatureIndex.Proofs.Text
import SignatureIndex.Text.Lowercase

/-! Lower-casing reaches its result in one step: what it gives is lower-case already, in every
surrounding. Below the small letters of ASCII no character comes from another one, so the marks that
structure a name (dots, slashes, backslashes) are kept and none is added. Blanks are kept too, and
nothing becomes one, so a text starts and ends with a blank if its lower-case form does. -/
namespace SignatureIndex.Text

section Runs

/-- Whether another run moves none of the code points from `low` to `high`: it lies before or behind
them, or both go in steps of two, one over the even and one over the odd code points. -/
def CaseShift.avoids (low high : Nat) (steps : Bool) (other : CaseShift) : Bool :=
  Nat.blt high other.first || Nat.blt other.last low ||
    (steps && Nat.beq other.stride 2 && Nat.beq ((low + other.first) % 2) 1)

/-- Whether code points from `low` to `high` are lower-case characters and no marks. -/
def areLower (low high : Nat) (steps : Bool) : Bool :=
  Nat.ble 0x61 low && (Nat.blt high 0x130 || Nat.blt 0x130 low) &&
    (Nat.blt high 0x3A3 || Nat.blt 0x3A3 low) &&
    (Nat.blt high 0xD800 || Nat.blt 0xDFFF low && Nat.blt high 0x110000) &&
    lowerShifts.all (CaseShift.avoids low high steps)

/-- Whether a run moves its code points to lower-case characters. -/
def CaseShift.lowers (run : CaseShift) : Bool :=
  areLower (Int.toNat (run.first + run.shift)) (Int.toNat (run.last + run.shift))
    (Nat.beq run.stride 2 || Nat.beq run.first run.last)

theorem lowerShifts_lower : lowerShifts.all CaseShift.lowers = true := by
  decide +kernel

/-- Ranges that avoid each other cover no code point together. -/
theorem not_covers_of_avoids {low high code : Nat} {steps : Bool} {other : CaseShift}
    (h : other.avoids low high steps = true) (hLow : low ≤ code) (hHigh : code ≤ high)
    (hSteps : steps = true → (code - low) % 2 = 0) : ¬other.covers code = true := by
  simp only [CaseShift.avoids, Bool.or_eq_true, Bool.and_eq_true, Nat.blt_eq, Nat.beq_eq] at h
  simp only [CaseShift.covers, Bool.and_eq_true, decide_eq_true_eq, beq_iff_eq]
  rintro ⟨⟨hFirst, hLast⟩, hStride⟩
  rcases h with (hBefore | hBehind) | ⟨⟨hTwo, hOther⟩, hOdd⟩
  · omega
  · omega
  · have hEven := hSteps hTwo
    rw [hOther] at hStride
    omega

/-- A moved code point is a character beyond the marks and is not moved again. -/
theorem isLower_code_of_covers {run : CaseShift} (hRun : run ∈ lowerShifts) {code : Nat}
    (h : run.covers code = true) :
    let moved := Int.toNat (code + run.shift)
    moved.isValidChar ∧ 0x61 ≤ moved ∧ moved ≠ 0x130 ∧ moved ≠ 0x3A3 ∧
      ∀ other ∈ lowerShifts, ¬other.covers moved = true := by
  intro moved
  have hLower := List.all_eq_true.mp lowerShifts_lower run hRun
  simp only [CaseShift.lowers, areLower, Bool.and_eq_true, Bool.or_eq_true, Nat.ble_eq,
    Nat.blt_eq, List.all_eq_true] at hLower
  obtain ⟨⟨⟨⟨hMark, hDotted⟩, hSigma⟩, hValid⟩, hOthers⟩ := hLower
  simp only [CaseShift.covers, Bool.and_eq_true, decide_eq_true_eq, beq_iff_eq] at h
  obtain ⟨⟨hFirst, hLast⟩, hStride⟩ := h
  have hLow : Int.toNat (run.first + run.shift) ≤ moved := by omega
  have hHigh : moved ≤ Int.toNat (run.last + run.shift) := by omega
  refine ⟨?_, by omega, by omega, by omega, fun other hOther => ?_⟩
  · show moved < 0xD800 ∨ 0xDFFF < moved ∧ moved < 0x110000
    omega
  · refine not_covers_of_avoids (hOthers other hOther) hLow hHigh fun hSteps => ?_
    rw [Bool.or_eq_true, Nat.beq_eq, Nat.beq_eq] at hSteps
    rcases hSteps with hTwo | hSingle
    · rw [hTwo] at hStride
      omega
    · omega

end Runs

/-- A character is kept, or a run moves it. -/
theorem shiftCase_cases (c : Char) :
    (shiftCase lowerShifts c = c ∧ ∀ run ∈ lowerShifts, ¬run.covers c.toNat = true) ∨
      ∃ run ∈ lowerShifts, run.covers c.toNat = true ∧
        (shiftCase lowerShifts c).toNat = Int.toNat (c.toNat + run.shift) := by
  unfold shiftCase
  split
  · next run hFound =>
      have hRun := List.mem_of_find?_eq_some hFound
      have hCovers : run.covers c.toNat = true :=
        List.find?_some (p := fun other : CaseShift => other.covers c.toNat) hFound
      refine .inr ⟨run, hRun, hCovers, ?_⟩
      rw [Char.ofNat, dif_pos (isLower_code_of_covers hRun hCovers).1]
      rfl
  · next hNone => exact .inl ⟨rfl, List.find?_eq_none.mp hNone⟩

/-- A character that lower-casing keeps, wherever it stands. -/
def IsLower (c : Char) : Prop :=
  c.toNat ≠ 0x3A3 ∧ lowerChar c = [c]

section Characters

variable {c d : Char}

/-- A character that no run moves is in lower case, but for two that are handled apart. -/
theorem isLower_of_not_covers (hDotted : c.toNat ≠ 0x130) (hSigma : c.toNat ≠ 0x3A3)
    (h : ∀ run ∈ lowerShifts, ¬run.covers c.toNat = true) : IsLower c := by
  refine ⟨hSigma, ?_⟩
  unfold lowerChar
  split
  · rcases toLower_cases c with ⟨hLow, hHigh, -⟩ | ⟨-, hSame⟩
    · refine absurd ?_ (h ⟨0x41, 0x5A, 1, 32⟩ List.mem_cons_self)
      simp [CaseShift.covers, hLow, hHigh, Nat.mod_one]
    · rw [hSame]
  · have hNone : lowerShifts.find? (·.covers c.toNat) = none := List.find?_eq_none.mpr h
    simp only [shiftCase, hNone]

/-- ASCII characters other than capital letters are lower-case. -/
theorem isLower_of_ascii (h : c.toNat < 0x80) (hUpper : ¬(0x41 ≤ c.toNat ∧ c.toNat ≤ 0x5A)) :
    IsLower c := by
  refine ⟨by omega, ?_⟩
  rcases toLower_cases c with ⟨hLow, hHigh, -⟩ | ⟨-, hSame⟩
  · exact absurd ⟨hLow, hHigh⟩ hUpper
  · rw [lowerChar, if_pos h, hSame]

/-- A character comes out in lower case, and only itself comes out as a mark. -/
theorem isLower_of_mem_lowerChar (hc : c.toNat ≠ 0x3A3) (hd : d ∈ lowerChar c) :
    IsLower d ∧ (d.toNat < 0x61 → d = c) := by
  unfold lowerChar at hd
  split at hd
  · next hAscii =>
      obtain rfl := List.mem_singleton.mp hd
      rcases toLower_cases c with ⟨hLow, hHigh, hMoved⟩ | ⟨hUpper, hSame⟩
      · exact ⟨isLower_of_ascii (by omega) (by omega), by omega⟩
      · rw [hSame]
        exact ⟨isLower_of_ascii hAscii hUpper, fun _ => rfl⟩
  · split at hd
    · have hDot : IsLower (Char.ofNat 0x307) := ⟨by decide, by decide +kernel⟩
      simp only [List.mem_cons, List.not_mem_nil, or_false] at hd
      rcases hd with rfl | rfl
      · exact ⟨isLower_of_ascii (by decide) (by decide), fun hMark => absurd hMark (by decide)⟩
      · exact ⟨hDot, fun hMark => absurd hMark (by decide)⟩
    · next hDotted =>
        obtain rfl := List.mem_singleton.mp hd
        rcases shiftCase_cases c with ⟨hSame, hNone⟩ | ⟨run, hRun, hCovers, hMoved⟩
        · rw [hSame]
          exact ⟨isLower_of_not_covers hDotted hc hNone, fun _ => rfl⟩
        · obtain ⟨-, hMark, hDotted', hSigma, hOthers⟩ := isLower_code_of_covers hRun hCovers
          rw [← hMoved] at hMark hDotted' hSigma hOthers
          exact ⟨isLower_of_not_covers hDotted' hSigma hOthers,
            fun hBelow => absurd hBelow (Nat.not_lt.mpr hMark)⟩

/-- The two small forms of the sigma. -/
theorem isLower_sigma : IsLower (Char.ofNat 0x3C2) ∧ IsLower (Char.ofNat 0x3C3) :=
  ⟨⟨by decide, by decide +kernel⟩, by decide, by decide +kernel⟩

end Characters

section Texts

variable {before cs : List Char}

/-- Lower-casing yields lower-case characters, and small code points only where they were. -/
theorem isLower_of_mem_lowerAfter {d : Char} (h : d ∈ lowerAfter before cs) :
    IsLower d ∧ (d.toNat < 0x61 → d ∈ cs) := by
  induction cs generalizing before with
  | nil => cases h
  | cons c cs ih =>
      rw [lowerAfter, List.mem_append] at h
      rcases h with hForm | hLater
      · split at hForm
        · have hCode : d = Char.ofNat 0x3C2 ∨ d = Char.ofNat 0x3C3 := by
            split at hForm
            · exact .inl (List.mem_singleton.mp hForm)
            · exact .inr (List.mem_singleton.mp hForm)
          rcases hCode with rfl | rfl
          · exact ⟨isLower_sigma.1, fun hBelow => absurd hBelow (by decide)⟩
          · exact ⟨isLower_sigma.2, fun hBelow => absurd hBelow (by decide)⟩
        · next hSigma =>
            obtain ⟨hLower, hMark⟩ := isLower_of_mem_lowerChar hSigma hForm
            exact ⟨hLower, fun hBelow => hMark hBelow ▸ List.mem_cons_self⟩
      · obtain ⟨hLower, hMark⟩ := ih hLater
        exact ⟨hLower, fun hBelow => List.mem_cons_of_mem c (hMark hBelow)⟩

theorem lowerAfter_of_isLower (h : ∀ c ∈ cs, IsLower c) : lowerAfter before cs = cs := by
  induction cs generalizing before with
  | nil => rfl
  | cons c cs ih =>
      obtain ⟨⟨hSigma, hForm⟩, hLater⟩ := List.forall_mem_cons.mp h
      rw [lowerAfter, if_neg hSigma, hForm, ih hLater, List.singleton_append]

/-- Text in lower case stays as it is. -/
theorem lower_of_isLower (h : ∀ c ∈ cs, IsLower c) : lower cs = cs :=
  lowerAfter_of_isLower h

/-- Every character of a lower-cased text is lower-case. -/
theorem isLower_of_mem_lower {d : Char} (h : d ∈ lower cs) :
    IsLower d ∧ (d.toNat < 0x61 → d ∈ cs) :=
  isLower_of_mem_lowerAfter h

theorem nearestIsCased_cons (c : Char) (cs : List Char) :
    nearestIsCased (c :: cs) = if isCaseIgnorable c then nearestIsCased cs else isCased c := by
  by_cases h : isCaseIgnorable c = true
  · simp [nearestIsCased, h]
  · simp [nearestIsCased, h]

theorem replaceChar_append (old new : Char) (front back : List Char) :
    replaceChar old new (front ++ back) = replaceChar old new front ++ replaceChar old new back :=
  List.map_append

theorem replaceChar_of_not_mem {old new : Char} (h : old ∉ cs) : replaceChar old new cs = cs := by
  have hSame : cs.map (fun c => if c = old then new else c) = cs.map id :=
    List.map_congr_left fun c hc => if_neg fun hOld : c = old => h (hOld ▸ hc)
  rwa [List.map_id] at hSame

/-- A slash and a backslash end words alike. -/
theorem nearestIsCased_replaceChar (cs : List Char) :
    nearestIsCased (replaceChar '\\' '/' cs) = nearestIsCased cs := by
  have hSlash : isCaseIgnorable '/' = false ∧ isCased '/' = false := by decide +kernel
  have hOther : isCaseIgnorable '\\' = false ∧ isCased '\\' = false := by decide +kernel
  induction cs with
  | nil => rfl
  | cons c cs ih =>
      rw [replaceChar, List.map_cons, nearestIsCased_cons, nearestIsCased_cons]
      by_cases hc : c = '\\'
      · simp [hc, hSlash, hOther]
      · rw [if_neg hc]
        exact if_congr Iff.rfl ih rfl

/-- Turning backslashes into slashes and lower-casing can trade places. -/
theorem lowerAfter_replaceChar (before cs : List Char) :
    lowerAfter (replaceChar '\\' '/' before) (replaceChar '\\' '/' cs) =
      replaceChar '\\' '/' (lowerAfter before cs) := by
  induction cs generalizing before with
  | nil => rfl
  | cons c cs ih =>
      have hLater : lowerAfter ((if c = '\\' then '/' else c) :: replaceChar '\\' '/' before)
          (replaceChar '\\' '/' cs) = replaceChar '\\' '/' (lowerAfter (c :: before) cs) :=
        ih (c :: before)
      show lowerAfter _ ((if c = '\\' then '/' else c) :: replaceChar '\\' '/' cs) = _
      rw [lowerAfter, lowerAfter, hLater, replaceChar_append, nearestIsCased_replaceChar,
        nearestIsCased_replaceChar]
      congr 1
      by_cases hc : c = '\\'
      · rw [hc, if_pos rfl, if_neg (by decide), if_neg (by decide)]
        decide
      · rw [if_neg hc]
        split
        · split
          · rfl
          · rfl
        · next hSigma =>
            refine (replaceChar_of_not_mem fun hMem => hc ?_).symm
            exact ((isLower_of_mem_lowerChar hSigma hMem).2 (by decide)).symm

/-- Slashes may be turned before or after lower-casing. -/
theorem lower_replaceChar (cs : List Char) :
    lower (replaceChar '\\' '/' cs) = replaceChar '\\' '/' (lower cs) :=
  lowerAfter_replaceChar [] cs

end Texts

section Classes

/-- A class of characters that lower-casing leads neither into nor out of. -/
structure CaseFree (p : Char → Prop) : Prop where
  form : ∀ c, c.toNat ≠ 0x3A3 → ∀ d ∈ lowerChar c, (p d ↔ p c)
  sigma : ∀ c, c.toNat ∈ [0x3A3, 0x3C2, 0x3C3] → ¬p c

/-- The code points of the blanks. -/
def blankRanges : List (Nat × Nat) :=
  [(0x09, 0x0D), (0x1C, 0x20), (0x85, 0x85), (0xA0, 0xA0), (0x1680, 0x1680), (0x2000, 0x200A),
    (0x2028, 0x2029), (0x202F, 0x202F), (0x205F, 0x205F), (0x3000, 0x3000)]

/-- The blanks are the characters of the listed ranges. -/
theorem isBlank_iff_exists_range {c : Char} :
    isBlank c = true ↔ ∃ range ∈ blankRanges, range.1 ≤ c.toNat ∧ c.toNat ≤ range.2 := by
  have hSpace : c = ' ' ↔ c.toNat = 0x20 := Char.toNat_inj.symm
  simp only [isBlank, isAsciiBlank, hSpace, Bool.or_eq_true, decide_eq_true_eq, blankRanges,
    List.mem_cons, List.not_mem_nil, or_false, exists_eq_or_imp, exists_eq_left]
  omega

/-- Whether a run moves neither blanks nor to blanks. -/
def CaseShift.missesBlanks (run : CaseShift) : Bool :=
  blankRanges.all fun range =>
    (Nat.blt range.2 run.first || Nat.blt run.last range.1) &&
      (Nat.blt range.2 (Int.toNat (run.first + run.shift)) ||
        Nat.blt (Int.toNat (run.last + run.shift)) range.1)

theorem lowerShifts_missBlanks : lowerShifts.all CaseShift.missesBlanks = true := by
  decide +kernel

/-- No run of the table moves a blank or moves a character to one. -/
theorem not_isBlank_of_covers {run : CaseShift} (hRun : run ∈ lowerShifts) {c d : Char}
    (hCovers : run.covers c.toNat = true) (hMoved : d.toNat = Int.toNat (c.toNat + run.shift)) :
    ¬isBlank c = true ∧ ¬isBlank d = true := by
  have hMisses := List.all_eq_true.mp lowerShifts_missBlanks run hRun
  simp only [CaseShift.missesBlanks, List.all_eq_true, Bool.and_eq_true, Bool.or_eq_true,
    Nat.blt_eq] at hMisses
  simp only [CaseShift.covers, Bool.and_eq_true, decide_eq_true_eq] at hCovers
  refine ⟨fun hBlank => ?_, fun hBlank => ?_⟩
  · obtain ⟨range, hRange, hIn⟩ := isBlank_iff_exists_range.mp hBlank
    have := (hMisses range hRange).1
    omega
  · obtain ⟨range, hRange, hIn⟩ := isBlank_iff_exists_range.mp hBlank
    have := (hMisses range hRange).2
    omega

/-- No blank lies between the space and the general punctuation, but for two controls. -/
theorem not_isBlank_of_code {c : Char} (hLow : 0x20 < c.toNat) (hHigh : c.toNat < 0x1680)
    (hNext : c.toNat ≠ 0x85) (hHard : c.toNat ≠ 0xA0) : ¬isBlank c = true := by
  simp only [isBlank_iff_exists_range, blankRanges, List.mem_cons, List.not_mem_nil, or_false,
    exists_eq_or_imp, exists_eq_left]
  omega

/-- Lower-casing makes no blank and takes none away. -/
theorem caseFree_isBlank : CaseFree (isBlank · = true) where
  form := by
    intro c _ d hd
    unfold lowerChar at hd
    split at hd
    · obtain rfl := List.mem_singleton.mp hd
      rcases toLower_cases c with ⟨hLow, hHigh, hMoved⟩ | ⟨-, hSame⟩
      · refine iff_of_false ?_ ?_
        · exact not_isBlank_of_code (by omega) (by omega) (by omega) (by omega)
        · exact not_isBlank_of_code (by omega) (by omega) (by omega) (by omega)
      · rw [hSame]
    · split at hd
      · next hDotted =>
          refine iff_of_false ?_ (not_isBlank_of_code (by omega) (by omega) (by omega) (by omega))
          simp only [List.mem_cons, List.not_mem_nil, or_false] at hd
          rcases hd with rfl | rfl <;> decide
      · obtain rfl := List.mem_singleton.mp hd
        rcases shiftCase_cases c with ⟨hSame, -⟩ | ⟨run, hRun, hCovers, hMoved⟩
        · rw [hSame]
        · obtain ⟨hBefore, hAfter⟩ := not_isBlank_of_covers hRun hCovers hMoved
          exact iff_of_false hAfter hBefore
  sigma := by
    intro c hc
    simp only [List.mem_cons, List.not_mem_nil, or_false] at hc
    exact not_isBlank_of_code (by omega) (by omega) (by omega) (by omega)

/-- A mark below the small letters comes from itself alone. -/
theorem caseFree_of_ascii {mark : Char} (h : mark.toNat < 0x41) : CaseFree (· = mark) where
  form := by
    intro c hc d hd
    constructor
    · rintro rfl
      exact ((isLower_of_mem_lowerChar hc hd).2 (by omega)).symm
    · rintro rfl
      rw [(isLower_of_ascii (by omega) (by omega)).2] at hd
      exact List.mem_singleton.mp hd
  sigma := by
    rintro c hc rfl
    simp only [List.mem_cons, List.not_mem_nil, or_false] at hc
    omega

/-- Whether a text starts or ends with a character of a class. -/
def EdgedBy (p : Char → Prop) (cs : List Char) : Prop :=
  (∃ c ∈ cs.head?, p c) ∨ ∃ c ∈ cs.getLast?, p c

variable {p : Char → Prop}

/-- The first character is lower-cased to one or more characters, all in the class or all not. -/
theorem CaseFree.exists_form (h : CaseFree p) (before : List Char) (c : Char) (rest : List Char) :
    ∃ form, form ≠ [] ∧ (∀ d ∈ form, (p d ↔ p c)) ∧
      lowerAfter before (c :: rest) = form ++ lowerAfter (c :: before) rest := by
  refine ⟨_, ?_, ?_, rfl⟩
  · split
    · split <;> simp
    · unfold lowerChar
      split
      · simp
      · split <;> simp
  · intro d hd
    split at hd
    · next hSigma =>
        refine iff_of_false (h.sigma d ?_) (h.sigma c (by simp [hSigma]))
        split at hd
        · rw [List.mem_singleton.mp hd]
          decide
        · rw [List.mem_singleton.mp hd]
          decide
    · next hSigma => exact h.form c hSigma d hd

/-- Lower-casing keeps whether a text starts with a character of the class. -/
theorem CaseFree.head?_lowerAfter (h : CaseFree p) (before cs : List Char) :
    (∃ d ∈ (lowerAfter before cs).head?, p d) ↔ ∃ c ∈ cs.head?, p c := by
  cases cs with
  | nil => rfl
  | cons c rest =>
      obtain ⟨form, hForm, hClass, hLower⟩ := h.exists_form before c rest
      obtain ⟨d, form, rfl⟩ := List.exists_cons_of_ne_nil hForm
      simpa [hLower] using hClass d List.mem_cons_self

/-- Lower-casing keeps whether a text ends with a character of the class. -/
theorem CaseFree.getLast?_lowerAfter (h : CaseFree p) (before cs : List Char) :
    (∃ d ∈ (lowerAfter before cs).getLast?, p d) ↔ ∃ c ∈ cs.getLast?, p c := by
  induction cs generalizing before with
  | nil => rfl
  | cons c rest ih =>
      obtain ⟨form, hForm, hClass, hLower⟩ := h.exists_form before c rest
      rw [hLower]
      cases rest with
      | nil =>
          have hLast := hClass _ (List.getLast_mem hForm)
          simpa [lowerAfter, List.getLast?_eq_some_getLast hForm] using hLast
      | cons next rest =>
          have hLater : lowerAfter (c :: before) (next :: rest) ≠ [] := by
            obtain ⟨later, hSome, -, hEq⟩ := h.exists_form (c :: before) next rest
            rw [hEq]
            exact List.append_ne_nil_of_left_ne_nil hSome _
          rw [List.getLast?_append_of_ne_nil _ hLater, ih, List.getLast?_cons_cons]

/-- A text and its lower-case form are alike at their ends. -/
theorem CaseFree.edgedBy_lower (h : CaseFree p) (cs : List Char) :
    EdgedBy p (lower cs) ↔ EdgedBy p cs :=
  or_congr (h.head?_lowerAfter [] cs) (h.getLast?_lowerAfter [] cs)

end Classes

end SignatureIndex.Text
