import Mathlib.Data.List.DropRight
import Mathlib.Data.List.Forall2
import SignatureIndex.Text.Blank
import SignatureIndex.Text.Letter

/-! Splitting text at a separator, as the library of lists knows it, and at the first or last
character of a class. Trimmed text neither starts nor ends with a blank, and the words of a text are
what stands between its blanks. -/
namespace SignatureIndex.Text

section FirstAndLast

variable {α : Type} {inside : α → Prop} {front front' back back' : List α} {mark mark' : α}

/-- There is one way only to split where a class is left for the first time. -/
theorem splitFirst_unique (hFront : ∀ x ∈ front, inside x) (hMark : ¬inside mark)
    (hFront' : ∀ x ∈ front', inside x) (hMark' : ¬inside mark')
    (h : front ++ mark :: back = front' ++ mark' :: back') :
    front = front' ∧ mark = mark' ∧ back = back' := by
  induction front generalizing front' with
  | nil =>
      cases front' with
      | nil => exact ⟨rfl, List.cons.inj h⟩
      | cons x _ =>
          obtain ⟨rfl, _⟩ := List.cons.inj h
          exact absurd (hFront' mark List.mem_cons_self) hMark
  | cons x front ih =>
      cases front' with
      | nil =>
          obtain ⟨rfl, _⟩ := List.cons.inj h
          exact absurd (hFront x List.mem_cons_self) hMark'
      | cons x' front' =>
          obtain ⟨rfl, hRest⟩ := List.cons.inj h
          obtain ⟨rfl, hSame⟩ := ih (fun y hy => hFront y (List.mem_cons_of_mem x hy))
            (fun y hy => hFront' y (List.mem_cons_of_mem x hy)) hRest
          exact ⟨rfl, hSame⟩

/-- There is one way only to split where a class is left for the last time. -/
theorem splitLast_unique (hBack : ∀ x ∈ back, inside x) (hMark : ¬inside mark)
    (hBack' : ∀ x ∈ back', inside x) (hMark' : ¬inside mark')
    (h : front ++ mark :: back = front' ++ mark' :: back') :
    front = front' ∧ mark = mark' ∧ back = back' := by
  have hReverse := congrArg List.reverse h
  simp only [List.reverse_append, List.reverse_cons, List.append_assoc, List.singleton_append]
    at hReverse
  obtain ⟨hSame, hMarks, hFronts⟩ := splitFirst_unique
    (fun x hx => hBack x (List.mem_reverse.mp hx)) hMark
    (fun x hx => hBack' x (List.mem_reverse.mp hx)) hMark' hReverse
  exact ⟨List.reverse_inj.mp hFronts, hMarks, List.reverse_inj.mp hSame⟩

/-- What does not hold a mark stands on one side of it. -/
theorem infix_around {middle : List α} (hMiddle : mark ∉ middle)
    (h : front ++ (middle ++ back) = front' ++ mark :: back') :
    (∃ between, front = front' ++ mark :: between ∧ back' = between ++ (middle ++ back)) ∨
      ∃ between, back = between ++ mark :: back' ∧ front' = front ++ (middle ++ between) := by
  induction front generalizing front' with
  | nil =>
      rw [List.nil_append] at h
      rcases List.append_eq_append_iff.mp h with ⟨between, rfl, rfl⟩ | ⟨between, rfl, hMark⟩
      · exact .inr ⟨between, rfl, rfl⟩
      · cases between with
        | nil => exact .inr ⟨[], hMark.symm, by simp⟩
        | cons x between =>
            obtain ⟨rfl, _⟩ := List.cons.inj hMark
            simp at hMiddle
  | cons x front ih =>
      cases front' with
      | nil =>
          obtain ⟨rfl, hRest⟩ := List.cons.inj h
          exact .inl ⟨front, rfl, hRest.symm⟩
      | cons y front' =>
          obtain ⟨rfl, hRest⟩ := List.cons.inj h
          rcases ih hRest with ⟨between, rfl, hBack⟩ | ⟨between, hBack, rfl⟩
          · exact .inl ⟨between, rfl, hBack⟩
          · exact .inr ⟨between, hBack, rfl⟩

/-- What holds of each item and those before it holds in a longer list if it holds of the last. -/
theorem forall_split_append {P : List α → α → Prop} {list : List α} {last : α}
    (h : ∀ before item after, list = before ++ item :: after → P before item)
    (hLast : P list last) (before : List α) (item : α) (after : List α)
    (hSplit : list ++ [last] = before ++ item :: after) : P before item := by
  rcases after.eq_nil_or_concat with rfl | ⟨earlier, other, rfl⟩
  · obtain ⟨rfl, hSame⟩ := List.append_inj' hSplit rfl
    cases hSame
    exact hLast
  · rw [List.concat_eq_append, ← List.cons_append, ← List.append_assoc] at hSplit
    exact h before item earlier (List.append_inj' hSplit rfl).1

/-- What some item satisfies with those before it in a longer list, one of the list or the last
does. -/
theorem exists_split_append {P : List α → α → Prop} {list : List α} {last : α} :
    (∃ before item after, list ++ [last] = before ++ item :: after ∧ P before item) ↔
      (∃ before item after, list = before ++ item :: after ∧ P before item) ∨ P list last := by
  constructor
  · rintro ⟨before, item, after, hSplit, hItem⟩
    by_contra hNone
    obtain ⟨hList, hLast⟩ := not_or.mp hNone
    refine forall_split_append (P := fun before item => ¬P before item) ?_ hLast before item after
      hSplit hItem
    exact fun before item after hSplit hItem => hList ⟨before, item, after, hSplit, hItem⟩
  · rintro (⟨before, item, after, rfl, hItem⟩ | hLast)
    · exact ⟨before, item, after ++ [last], by simp, hItem⟩
    · exact ⟨list, last, [], rfl, hLast⟩

end FirstAndLast

theorem wordChar_bounds {c : Char} (h : isWordChar c = true) : 0x30 ≤ c.toNat ∧ c.toNat ≤ 0x7A := by
  change ((decide ('A'.val ≤ c.val ∧ c.val ≤ 'Z'.val) ||
    (decide ('a'.val ≤ c.val) && decide (c.val ≤ 'z'.val))) ||
    (decide ('0'.val ≤ c.val) && decide (c.val ≤ '9'.val))) || decide (c = '_') at h
  simp only [Bool.or_eq_true, Bool.and_eq_true, decide_eq_true_eq, UInt32.le_iff_toNat_le] at h
  change 0x30 ≤ c.val.toNat ∧ c.val.toNat ≤ 0x7A
  rcases h with ((⟨hLow, hHigh⟩ | ⟨hLow, hHigh⟩) | ⟨hLow, hHigh⟩) | rfl
  · exact ⟨Nat.le_trans (by decide) hLow, Nat.le_trans hHigh (by decide)⟩
  · exact ⟨Nat.le_trans (by decide) hLow, hHigh⟩
  · exact ⟨hLow, Nat.le_trans hHigh (by decide)⟩
  · decide

theorem not_isAsciiBlank_of_word {c : Char} (h : isWordChar c = true) :
    ¬isAsciiBlank c = true := by
  obtain ⟨hLow, _⟩ := wordChar_bounds h
  simp only [isAsciiBlank, Bool.or_eq_true, decide_eq_true_eq]
  rintro (rfl | hRange)
  · revert hLow
    decide
  · omega

theorem not_isBlank_of_word {c : Char} (h : isWordChar c = true) : ¬isBlank c = true := by
  obtain ⟨hLow, hHigh⟩ := wordChar_bounds h
  simp only [isBlank, Bool.eq_false_iff.mpr (not_isAsciiBlank_of_word h), Bool.false_or,
    Bool.or_eq_true, decide_eq_true_eq]
  omega

/-- Only capital letters of ASCII are changed, and they come out as small letters. -/
theorem toLower_cases (c : Char) :
    (0x41 ≤ c.toNat ∧ c.toNat ≤ 0x5A ∧ c.toLower.toNat = c.toNat + 32) ∨
      (¬(0x41 ≤ c.toNat ∧ c.toNat ≤ 0x5A) ∧ c.toLower = c) := by
  have hBounds : c.val ≥ 'A'.val ∧ c.val ≤ 'Z'.val ↔ 0x41 ≤ c.toNat ∧ c.toNat ≤ 0x5A := by
    rw [ge_iff_le, UInt32.le_iff_toNat_le, UInt32.le_iff_toNat_le]
    exact Iff.rfl
  unfold Char.toLower
  split
  · next hUpper =>
      obtain ⟨hLow, hHigh⟩ := hBounds.mp hUpper
      refine .inl ⟨hLow, hHigh, ?_⟩
      show (c.val + 32).toNat = c.val.toNat + 32
      have hSmall : c.val.toNat ≤ 0x5A := hHigh
      rw [UInt32.toNat_add]
      exact Nat.mod_eq_of_lt (by simp; omega)
  · next hUpper => exact .inr ⟨fun hRange => hUpper (hBounds.mpr hRange), rfl⟩

theorem splitOn_cons_self (sep : Char) (cs : List Char) :
    List.splitOn sep (sep :: cs) = [] :: List.splitOn sep cs := by
  simp [List.splitOn_cons_eq_if_modifyHead]

/-- Before a character that is no separator, the first piece gets longer. -/
theorem splitOn_cons_of_ne {sep c : Char} (hc : c ≠ sep) (cs : List Char) :
    ∃ piece pieces, List.splitOn sep cs = piece :: pieces ∧
      List.splitOn sep (c :: cs) = (c :: piece) :: pieces := by
  cases hPieces : List.splitOn sep cs with
  | nil => exact absurd hPieces (List.splitOn_ne_nil sep cs)
  | cons piece pieces =>
      exact ⟨piece, pieces, rfl, by simp [List.splitOn_cons_eq_if_modifyHead, hc, hPieces]⟩

/-- The characters of a piece are those of the text, without the separator. -/
theorem ne_and_mem_of_mem_splitOn {sep c : Char} {cs piece : List Char}
    (h : piece ∈ List.splitOn sep cs) (hc : c ∈ piece) : c ≠ sep ∧ c ∈ cs := by
  induction cs generalizing piece with
  | nil => simp_all
  | cons d rest ih =>
      by_cases hd : d = sep
      · subst hd
        rw [splitOn_cons_self] at h
        rcases List.mem_cons.mp h with rfl | hPiece
        · cases hc
        · exact (ih hPiece hc).imp_right (List.mem_cons_of_mem d)
      · obtain ⟨first, pieces, hRest, hCons⟩ := splitOn_cons_of_ne hd rest
        rw [hRest] at ih
        rw [hCons] at h
        rcases List.mem_cons.mp h with rfl | hPiece
        · rcases List.mem_cons.mp hc with rfl | hFirst
          · exact ⟨hd, List.mem_cons_self⟩
          · exact (ih List.mem_cons_self hFirst).imp_right (List.mem_cons_of_mem d)
        · exact (ih (List.mem_cons_of_mem first hPiece) hc).imp_right (List.mem_cons_of_mem d)

theorem not_mem_of_mem_splitOn {sep : Char} {cs piece : List Char}
    (h : piece ∈ List.splitOn sep cs) : sep ∉ piece :=
  fun hMem => (ne_and_mem_of_mem_splitOn h hMem).1 rfl

/-- There is one piece more than separators. -/
theorem length_splitOn (sep : Char) (cs : List Char) :
    (List.splitOn sep cs).length = cs.count sep + 1 := by
  induction cs with
  | nil => simp
  | cons c rest ih =>
      by_cases hc : c = sep
      · subst hc
        rw [splitOn_cons_self, List.length_cons, ih, List.count_cons_self]
      · obtain ⟨piece, pieces, hRest, hCons⟩ := splitOn_cons_of_ne hc rest
        rw [hRest] at ih
        rw [hCons, List.count_cons_of_ne hc, ← ih, List.length_cons, List.length_cons]

theorem mem_intercalate {sep : List Char} {pieces : List (List Char)} {c : Char}
    (h : c ∈ List.intercalate sep pieces) : c ∈ sep ∨ ∃ piece ∈ pieces, c ∈ piece := by
  induction pieces with
  | nil => simp at h
  | cons first rest ih =>
      cases rest with
      | nil =>
          refine .inr ⟨first, List.mem_cons_self, ?_⟩
          simpa using h
      | cons next rest =>
          rw [List.intercalate_cons_cons, List.mem_append, List.mem_append] at h
          rcases h with (hFirst | hSep) | hRest
          · exact .inr ⟨first, List.mem_cons_self, hFirst⟩
          · exact .inl hSep
          · rcases ih hRest with hSep | ⟨piece, hPiece, hMem⟩
            · exact .inl hSep
            · exact .inr ⟨piece, List.mem_cons_of_mem first hPiece, hMem⟩

theorem intercalate_append_singleton (sep : List Char) {pieces : List (List Char)} (h : pieces ≠ [])
    (piece : List Char) :
    List.intercalate sep (pieces ++ [piece]) = List.intercalate sep pieces ++ sep ++ piece := by
  induction pieces with
  | nil => exact absurd rfl h
  | cons first rest ih =>
      cases rest with
      | nil => simp [List.intercalate_cons_cons]
      | cons next rest =>
          have hRest := ih (by simp)
          simp only [List.cons_append] at hRest ⊢
          rw [List.intercalate_cons_cons, hRest, List.intercalate_cons_cons]
          simp only [List.append_assoc]

theorem dropWhile_eq_self {p : Char → Bool} {cs : List Char}
    (h : ∀ c ∈ cs.head?, ¬p c = true) : cs.dropWhile p = cs := by
  cases cs with
  | nil => rfl
  | cons c rest => exact List.dropWhile_cons_of_neg (h c rfl)

theorem trim_isPrefix (cs : List Char) : trim cs <+: cs.dropWhile isBlank :=
  List.rdropWhile_prefix isBlank _

theorem trim_isInfix (cs : List Char) : trim cs <:+: cs :=
  (trim_isPrefix cs).isInfix.trans (List.dropWhile_suffix isBlank).isInfix

/-- Taken off both ends, a class of characters stands at neither end any more. -/
theorem head?_dropEndWhile {p : Char → Bool} {cs : List Char} :
    ∀ c ∈ (dropEndWhile p (cs.dropWhile p)).head?, ¬p c = true := by
  intro c hHead
  have hWhole : (cs.dropWhile p).head? = some c := by
    obtain ⟨rest, hRest⟩ : dropEndWhile p (cs.dropWhile p) <+: cs.dropWhile p :=
      List.rdropWhile_prefix p _
    rw [← hRest, List.head?_append, Option.mem_def.mp hHead, Option.some_or]
  have hNot := List.head?_dropWhile_not p cs
  rw [hWhole] at hNot
  simpa using hNot

theorem getLast?_dropEndWhile {p : Char → Bool} {cs : List Char} :
    ∀ c ∈ (dropEndWhile p cs).getLast?, ¬p c = true := by
  intro c hLast
  obtain ⟨hNonempty, rfl⟩ := List.mem_getLast?_eq_getLast hLast
  exact List.rdropWhile_last_not p _ hNonempty

theorem head?_trim {cs : List Char} : ∀ c ∈ (trim cs).head?, ¬isBlank c = true :=
  head?_dropEndWhile

theorem getLast?_trim {cs : List Char} : ∀ c ∈ (trim cs).getLast?, ¬isBlank c = true :=
  getLast?_dropEndWhile

/-- A text that neither starts nor ends with a blank is found again between blanks. -/
theorem trim_between {indent cs outdent : List Char} (hIndent : ∀ c ∈ indent, isBlank c = true)
    (hOutdent : ∀ c ∈ outdent, isBlank c = true) (hHead : ∀ c ∈ cs.head?, ¬isBlank c = true)
    (hLast : ∀ c ∈ cs.getLast?, ¬isBlank c = true) : trim (indent ++ (cs ++ outdent)) = cs := by
  have hReverse : cs.reverse.dropWhile isBlank = cs.reverse := by
    apply dropWhile_eq_self
    rwa [List.head?_reverse]
  have hEnd : dropEndWhile isBlank (cs ++ outdent) = cs := by
    rw [dropEndWhile, List.reverse_append, List.dropWhile_append_of_pos (by simpa using hOutdent),
      hReverse, List.reverse_reverse]
  rw [trim, List.dropWhile_append_of_pos hIndent]
  cases cs with
  | nil =>
      rw [List.nil_append, List.dropWhile_eq_nil_iff.mpr hOutdent]
      rfl
  | cons c rest => rw [dropWhile_eq_self (by simpa using hHead), hEnd]

/-- A text that neither starts nor ends with a blank is found again behind an indent. -/
theorem trim_indent {indent cs : List Char} (hIndent : ∀ c ∈ indent, isBlank c = true)
    (hHead : ∀ c ∈ cs.head?, ¬isBlank c = true) (hLast : ∀ c ∈ cs.getLast?, ¬isBlank c = true) :
    trim (indent ++ cs) = cs := by
  have hNone : ∀ c ∈ ([] : List Char), isBlank c = true := by simp
  simpa using trim_between hIndent hNone hHead hLast

/-- A text without blanks at its ends stays as it is under trimming. -/
theorem trim_of_solid {cs : List Char} (hHead : ∀ c ∈ cs.head?, ¬isBlank c = true)
    (hLast : ∀ c ∈ cs.getLast?, ¬isBlank c = true) : trim cs = cs :=
  @trim_indent [] cs (by simp) hHead hLast

theorem trim_trim (cs : List Char) : trim (trim cs) = trim cs := by
  have hNone : ∀ c ∈ ([] : List Char), isBlank c = true := by simp
  simpa using trim_indent hNone (@head?_trim cs) getLast?_trim

theorem startsWith_iff {word cs : List Char} : startsWith word cs = true ↔ word <+: cs := by
  rw [startsWith, Option.isSome_iff_exists]
  simp only [dropLead?_eq_some_iff]
  exact ⟨fun ⟨rest, h⟩ => ⟨rest, h.symm⟩, fun ⟨rest, h⟩ => ⟨rest, h.symm⟩⟩

section Pieces

theorem isInfix_intercalate {sep piece : List Char} {pieces : List (List Char)}
    (h : piece ∈ pieces) : piece <:+: List.intercalate sep pieces := by
  induction pieces with
  | nil => cases h
  | cons first rest ih =>
      cases rest with
      | nil =>
          rw [List.mem_singleton.mp h]
          simp
      | cons next rest =>
          rw [List.intercalate_cons_cons]
          rcases List.mem_cons.mp h with rfl | hRest
          · rw [List.append_assoc]
            exact (List.prefix_append _ _).isInfix
          · exact (ih hRest).trans (List.suffix_append _ _).isInfix

theorem isInfix_of_mem_splitOn {sep : Char} {cs piece : List Char}
    (h : piece ∈ List.splitOn sep cs) : piece <:+: cs := by
  have hPiece : piece <:+: List.intercalate [sep] (List.splitOn sep cs) := isInfix_intercalate h
  rwa [List.intercalate_splitOn] at hPiece

/-- Where some characters of a text go, but no separator, each piece is left with some of its own
characters. -/
theorem splitOn_sublist {sep : Char} {kept cs : List Char} (h : List.Sublist kept cs)
    (hCount : kept.count sep = cs.count sep) :
    List.Forall₂ List.Sublist (List.splitOn sep kept) (List.splitOn sep cs) := by
  induction h with
  | slnil => exact .cons .slnil .nil
  | @cons kept cs c hKept ih =>
      have hFewer := hKept.count_le sep
      have hc : c ≠ sep := by
        rintro rfl
        rw [List.count_cons_self] at hCount
        omega
      rw [List.count_cons_of_ne hc] at hCount
      obtain ⟨piece, pieces, hPieces, hCons⟩ := splitOn_cons_of_ne hc cs
      have hBelow := ih hCount
      rw [hPieces] at hBelow
      obtain ⟨line, lines, hFirst, hRest, hLines⟩ := List.forall₂_cons_right_iff.mp hBelow
      rw [hCons, hLines]
      exact .cons (hFirst.cons c) hRest
  | @cons_cons kept cs c hKept ih =>
      by_cases hc : c = sep
      · subst hc
        rw [List.count_cons_self, List.count_cons_self] at hCount
        rw [splitOn_cons_self, splitOn_cons_self]
        exact .cons .slnil (ih (Nat.succ.inj hCount))
      · rw [List.count_cons_of_ne hc, List.count_cons_of_ne hc] at hCount
        obtain ⟨piece, pieces, hPieces, hCons⟩ := splitOn_cons_of_ne hc cs
        obtain ⟨line, lines, hLines, hConsKept⟩ := splitOn_cons_of_ne hc kept
        have hBelow := ih hCount
        rw [hPieces, hLines] at hBelow
        rw [hCons, hConsKept]
        obtain ⟨hFirst, hRest⟩ := List.forall₂_cons.mp hBelow
        exact .cons (hFirst.cons_cons c) hRest

end Pieces

section Words

variable {cs rest : List Char} {c : Char}

theorem words_ne_nil (hc : ¬isBlank c = true) : words (c :: rest) ≠ [] := by
  rw [words.eq_def]
  simp only [hc, Bool.false_eq_true, if_false]
  split
  · simp
  · split
    · simp
    · split <;> simp

/-- The first character decides about the first word: a blank does not count, and any other
character is a word of its own or the start of the word behind it. -/
theorem words_cases (c : Char) (rest : List Char) :
    (isBlank c = true ∧ words (c :: rest) = words rest) ∨
    (¬isBlank c = true ∧ (∀ d ∈ rest.head?, isBlank d = true) ∧
      words (c :: rest) = [c] :: words rest) ∨
    ∃ word others, ¬isBlank c = true ∧ (∃ d ∈ rest.head?, ¬isBlank d = true) ∧
      words rest = word :: others ∧ words (c :: rest) = (c :: word) :: others := by
  rw [words.eq_def (c :: rest)]
  by_cases hc : isBlank c = true
  · simp only [hc, if_true]
    exact .inl ⟨trivial, trivial⟩
  · simp only [hc, Bool.false_eq_true, if_false]
    refine .inr ?_
    cases rest with
    | nil => exact .inl ⟨not_false, by simp, rfl⟩
    | cons d rest =>
        by_cases hd : isBlank d = true
        · simp only [hd, if_true]
          exact .inl ⟨not_false, by simpa using hd, trivial⟩
        · simp only [hd, Bool.false_eq_true, if_false]
          cases hWords : words (d :: rest) with
          | nil => exact absurd hWords (words_ne_nil hd)
          | cons word others =>
              exact .inr ⟨word, others, not_false, ⟨d, rfl, hd⟩, rfl, rfl⟩

/-- Text without blanks at the start is the start of the first word, and all of it if a blank
follows. -/
theorem words_append {front : List Char} (hSome : front ≠ [])
    (hFront : ∀ c ∈ front, ¬isBlank c = true) (rest : List Char) :
    ∃ more others, words (front ++ rest) = (front ++ more) :: others ∧
      ((∃ b ∈ rest.head?, isBlank b = true) → more = [] ∧ others = words rest) := by
  induction front with
  | nil => exact absurd rfl hSome
  | cons c front ih =>
      obtain ⟨hc, hRest⟩ := List.forall_mem_cons.mp hFront
      rcases words_cases c (front ++ rest) with
        ⟨hBlank, -⟩ | ⟨-, hNext, hWords⟩ | ⟨word, others, -, ⟨d, hd, hNext⟩, hBehind, hWords⟩
      · exact absurd hBlank hc
      · cases front with
        | nil => exact ⟨[], words rest, hWords, fun _ => ⟨rfl, rfl⟩⟩
        | cons d front => exact absurd (hNext d rfl) (hRest d List.mem_cons_self)
      · cases front with
        | nil =>
            refine ⟨word, others, hWords, ?_⟩
            rintro ⟨b, hb, hBlank⟩
            rw [List.nil_append, Option.mem_def.mp hb] at hd
            cases hd
            exact absurd hBlank hNext
        | cons e front =>
            obtain ⟨more, later, hLater, hBlank⟩ := ih (by simp) hRest
            rw [hBehind] at hLater
            obtain ⟨rfl, rfl⟩ := List.cons.inj hLater
            exact ⟨more, others, hWords, hBlank⟩

/-- Words are runs of characters of the text that are not blank. -/
theorem mem_words {word : List Char} (h : word ∈ words cs) :
    word ≠ [] ∧ ∀ c ∈ word, ¬isBlank c = true ∧ c ∈ cs := by
  induction cs generalizing word with
  | nil => cases h
  | cons c rest ih =>
      have hLater {other : List Char} (hOther : other ∈ words rest) :
          other ≠ [] ∧ ∀ d ∈ other, ¬isBlank d = true ∧ d ∈ c :: rest := by
        obtain ⟨hSome, hChars⟩ := ih hOther
        exact ⟨hSome, fun d hd => (hChars d hd).imp_right (List.mem_cons_of_mem c)⟩
      rcases words_cases c rest with
        ⟨-, hWords⟩ | ⟨hc, -, hWords⟩ | ⟨first, others, hc, -, hBehind, hWords⟩
      · exact hLater (hWords ▸ h)
      · rw [hWords] at h
        rcases List.mem_cons.mp h with rfl | hOther
        · exact ⟨by simp, by simpa using hc⟩
        · exact hLater hOther
      · rw [hWords] at h
        rw [hBehind] at hLater
        rcases List.mem_cons.mp h with rfl | hOther
        · exact ⟨by simp, List.forall_mem_cons.mpr
            ⟨⟨hc, List.mem_cons_self⟩, (hLater List.mem_cons_self).2⟩⟩
        · exact hLater (List.mem_cons_of_mem first hOther)

theorem isBlank_of_words_eq_nil (h : words cs = []) : ∀ c ∈ cs, isBlank c = true := by
  induction cs with
  | nil => simp
  | cons c rest ih =>
      rcases words_cases c rest with ⟨hc, hWords⟩ | ⟨-, -, hWords⟩ | ⟨_, _, -, -, -, hWords⟩
      · exact List.forall_mem_cons.mpr ⟨hc, ih (hWords ▸ h)⟩
      · rw [hWords] at h
        cases h
      · rw [hWords] at h
        cases h

theorem takeWhile_eq_nil {p : Char → Bool} (h : ∀ c ∈ cs.head?, ¬p c = true) :
    cs.takeWhile p = [] := by
  cases cs with
  | nil => rfl
  | cons c rest => exact List.takeWhile_cons_of_neg (h c rfl)

/-- Words that are joined again start as the text does behind its blanks. -/
theorem takeWhile_intercalate_words (cs : List Char) :
    (List.intercalate [' '] (words cs)).takeWhile isWordChar =
      (cs.dropWhile isBlank).takeWhile isWordChar := by
  induction cs with
  | nil => rfl
  | cons c rest ih =>
      rcases words_cases c rest with
        ⟨hc, hWords⟩ | ⟨hc, hNext, hWords⟩ | ⟨word, others, hc, ⟨d, hd, hNext⟩, hBehind, hWords⟩
      · rw [hWords, ih, List.dropWhile_cons_of_pos hc]
      · -- the first word is this character, and no word character follows on either side
        have hRest : rest.takeWhile isWordChar = [] :=
          takeWhile_eq_nil fun d hd hWord => not_isBlank_of_word hWord (hNext d hd)
        have hJoined : ∃ tail, List.intercalate [' '] (words (c :: rest)) = c :: tail ∧
            tail.takeWhile isWordChar = [] := by
          rw [hWords]
          cases words rest with
          | nil => exact ⟨[], rfl, rfl⟩
          | cons next more =>
              exact ⟨' ' :: List.intercalate [' '] (next :: more), rfl,
                List.takeWhile_cons_of_neg (by decide)⟩
        obtain ⟨tail, hTail, hStop⟩ := hJoined
        rw [hTail, List.dropWhile_cons_of_neg hc, List.takeWhile_cons, List.takeWhile_cons, hRest,
          hStop]
      · have hJoined : List.intercalate [' '] (words (c :: rest)) =
            c :: List.intercalate [' '] (words rest) := by
          rw [hWords, hBehind]
          cases others with
          | nil => rfl
          | cons next more => rfl
        have hSame : rest.dropWhile isBlank = rest := by
          refine dropWhile_eq_self fun e he => ?_
          rw [Option.mem_def.mp hd] at he
          cases he
          exact hNext
        rw [hSame] at ih
        rw [hJoined, List.dropWhile_cons_of_neg hc, List.takeWhile_cons, List.takeWhile_cons, ih]

end Words

section Trim

variable {core tail : List Char}

/-- Trimming the end stops before the last character of a text that does not end with a blank. -/
theorem trimEnd_append (hLast : ∀ c ∈ core.getLast?, ¬isBlank c = true) :
    trimEnd (core ++ tail) = core ++ trimEnd tail := by
  have hCore : core.reverse.dropWhile isBlank = core.reverse := by
    apply dropWhile_eq_self
    rwa [List.head?_reverse]
  rw [trimEnd, trimEnd, dropEndWhile, dropEndWhile, List.reverse_append, List.dropWhile_append]
  split
  · next hBlank =>
      rw [List.isEmpty_iff.mp hBlank, hCore]
      simp
  · simp

/-- Trimming an indented text leaves its core and what follows up to the last solid character. -/
theorem trim_append {indent : List Char} (hIndent : ∀ c ∈ indent, isBlank c = true)
    (hSome : core ≠ []) (hHead : ∀ c ∈ core.head?, ¬isBlank c = true)
    (hLast : ∀ c ∈ core.getLast?, ¬isBlank c = true) :
    trim (indent ++ (core ++ tail)) = core ++ trimEnd tail := by
  have hStart : (core ++ tail).dropWhile isBlank = core ++ tail := by
    apply dropWhile_eq_self
    rwa [List.head?_append_of_ne_nil _ hSome]
  rw [trim, List.dropWhile_append_of_pos hIndent, hStart]
  exact trimEnd_append hLast

theorem exists_blanks_of_trimEnd (cs : List Char) :
    ∃ blanks, cs = trimEnd cs ++ blanks ∧ ∀ c ∈ blanks, isBlank c = true := by
  refine ⟨(cs.reverse.takeWhile isBlank).reverse, ?_, fun c hc => ?_⟩
  · rw [trimEnd, dropEndWhile, ← List.reverse_append, List.takeWhile_append_dropWhile,
      List.reverse_reverse]
  · exact List.mem_takeWhile_imp (List.mem_reverse.mp hc)

theorem head?_trimEnd {c : Char} (h : c ∈ (trimEnd tail).head?) : c ∈ tail.head? := by
  obtain ⟨blanks, hSplit, -⟩ := exists_blanks_of_trimEnd tail
  rw [hSplit, List.head?_append, Option.mem_def.mp h, Option.some_or]
  rfl

/-- Nothing is left of a text exactly if it is blank. -/
theorem trim_eq_nil_iff {cs : List Char} : trim cs = [] ↔ ∀ c ∈ cs, isBlank c = true := by
  constructor
  · intro h
    obtain ⟨blanks, hSplit, hBlanks⟩ := exists_blanks_of_trimEnd (cs.dropWhile isBlank)
    rw [show trimEnd (cs.dropWhile isBlank) = [] from h, List.nil_append] at hSplit
    refine List.dropWhile_eq_nil_iff.mp ?_
    cases blanks with
    | nil => exact hSplit
    | cons b blanks =>
        have hNot := List.head?_dropWhile_not isBlank cs
        rw [hSplit] at hNot
        exact absurd (hBlanks b List.mem_cons_self) (by simpa using hNot)
  · intro h
    rw [trim, List.dropWhile_eq_nil_iff.mpr h]
    rfl

end Trim

end SignatureIndex.Text
