import Mathlib.Data.List.Basic
import SignatureIndex.Proofs.Pattern
import SignatureIndex.Proofs.Text
import SignatureIndex.Scan.LineShape

/-! Where an else-if branch stands in a line, and in a line that was joined from several: it never
goes across the closing brace of a body. -/
namespace SignatureIndex.Scan

open Text

/-- The two words of a branch stand in a line, apart from other words. -/
def HasBranch (line : List Char) : Prop :=
  ∃ front gap after, line = front ++ (("else".toList ++ (gap ++ "if".toList)) ++ after) ∧
    gap ≠ [] ∧ (∀ c ∈ gap, isBlank c = true) ∧
    (∀ c ∈ front.getLast?, isAnyWordChar c = false) ∧
    ∀ c ∈ after.head?, isAnyWordChar c = false

section Edges

variable {isWord : Char → Bool} {c : Char}

theorem isBoundary_start (hc : isWord c = true) (before : Option Char) :
    isBoundary isWord before (some c) = true ↔ ∀ d ∈ before, isWord d = false := by
  cases before <;> simp [isBoundary, hc]

theorem isBoundary_end (hc : isWord c = true) (after : Option Char) :
    isBoundary isWord (some c) after = true ↔ ∀ d ∈ after, isWord d = false := by
  cases after <;> simp [isBoundary, hc]

end Edges

/-- The test for an else-if branch finds exactly the branches. -/
theorem isElseIf_iff (line : List Char) : isElseIf line = true ↔ HasBranch line := by
  have hStart : isAnyWordChar 'e' = true := by decide +kernel
  have hEnd : isAnyWordChar 'f' = true := by decide +kernel
  unfold isElseIf elseIf HasBranch
  rw [Pattern.occursIn_iff]
  simp only [Pattern.matches_all_cons, Pattern.matches_text, Pattern.matches_atLeastOnce_one]
  constructor
  · rintro ⟨front, _, after, rfl, _, _, rfl, ⟨rfl, hBefore⟩, _, _, rfl, rfl, gap, _, rfl, hGap, _,
      _, rfl, rfl, _, _, rfl, ⟨rfl, hAfter⟩, rfl⟩
    refine ⟨front, gap, after, by simp, hGap.1, hGap.2, ?_, ?_⟩
    · exact (isBoundary_start hStart _).mp hBefore
    · exact (isBoundary_end hEnd _).mp hAfter
  · rintro ⟨front, gap, after, rfl, hGap, hBlank, hBefore, hAfter⟩
    refine ⟨front, _, after, rfl, [], _, rfl, ⟨rfl, ?_⟩, _, _, rfl, rfl, gap, _, rfl,
      ⟨hGap, hBlank⟩, _, [], by simp, rfl, [], [], rfl, ⟨rfl, ?_⟩, rfl⟩
    · exact (isBoundary_start hStart _).mpr hBefore
    · exact (isBoundary_end hEnd _).mpr hAfter

section Joining

variable {body rest : List Char}

theorem head?_append_cons (front back : List Char) (c : Char) :
    (front ++ c :: back).head? = (front ++ [c]).head? := by
  cases front <;> rfl

/-- A branch in a body that a brace closes is one of the longer line too. -/
theorem HasBranch.of_body (h : HasBranch (body ++ ['\x7d'])) :
    HasBranch (body ++ '\x7d' :: ' ' :: rest) := by
  obtain ⟨front, gap, after, hLine, hGap, hBlank, hFront, hAfter⟩ := h
  rcases List.eq_nil_or_concat' after with rfl | ⟨between, last, rfl⟩
  · have hLast := congrArg List.getLast? hLine
    rw [List.append_nil, List.getLast?_append, List.getLast?_append, List.getLast?_append,
      List.getLast?_append] at hLast
    exact absurd hLast (by simp)
  · rw [← List.append_assoc, ← List.append_assoc] at hLine
    obtain ⟨rfl, hBrace⟩ := List.append_inj' hLine rfl
    obtain rfl : '\x7d' = last := List.singleton_inj.mp hBrace
    refine ⟨front, gap, between ++ '\x7d' :: ' ' :: rest, by simp, hGap, hBlank, hFront, ?_⟩
    rwa [head?_append_cons]

theorem HasBranch.of_rest (h : HasBranch rest) : HasBranch (body ++ '\x7d' :: ' ' :: rest) := by
  obtain ⟨front, gap, after, rfl, hGap, hBlank, hFront, hAfter⟩ := h
  refine ⟨body ++ '\x7d' :: ' ' :: front, gap, after, by simp, hGap, hBlank, ?_, hAfter⟩
  rcases List.eq_nil_or_concat' front with rfl | ⟨_, last, rfl⟩
  · intro c hc
    obtain rfl : ' ' = c := by simpa using hc
    decide +kernel
  · intro c hc
    obtain rfl : last = c := by simpa [List.getLast?_cons] using hc
    exact hFront last (by simp)

/-- A branch in joined lines stands in one of them, if the first ends a body. -/
theorem hasBranch_join_iff :
    HasBranch (body ++ '\x7d' :: ' ' :: rest) ↔ HasBranch (body ++ ['\x7d']) ∨ HasBranch rest := by
  constructor
  · rintro ⟨front, gap, after, hLine, hGap, hBlank, hFront, hAfter⟩
    have hMark : '\x7d' ∉ "else".toList ++ (gap ++ "if".toList) := by
      intro hMem
      rcases List.mem_append.mp hMem with hMem | hMem
      · revert hMem
        decide
      · rcases List.mem_append.mp hMem with hMem | hMem
        · exact absurd (hBlank _ hMem) (by decide)
        · revert hMem
          decide
    rcases infix_around hMark hLine.symm with ⟨between, rfl, hRest⟩ | ⟨between, rfl, rfl⟩
    · cases between with
      | nil =>
          -- the blank between the lines is no part of a branch
          have hHead : some ' ' = some 'e' := congrArg List.head? hRest
          cases hHead
      | cons c between =>
          obtain ⟨_, rfl⟩ := List.cons.inj hRest
          refine .inr ⟨between, gap, after, rfl, hGap, hBlank, ?_, hAfter⟩
          intro d hd
          exact hFront d (List.mem_getLast?_append_of_mem_getLast? (by
            simp [List.getLast?_cons, Option.mem_def.mp hd]))
    · refine .inl ⟨front, gap, between ++ ['\x7d'], by simp, hGap, hBlank, hFront, ?_⟩
      rwa [head?_append_cons] at hAfter
  · rintro (hBody | hRest)
    · exact hBody.of_body
    · exact hRest.of_rest

end Joining

end SignatureIndex.Scan
