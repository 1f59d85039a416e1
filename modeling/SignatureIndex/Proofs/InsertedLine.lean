import SignatureIndex.Proofs.Renumbering
import SignatureIndex.Proofs.Segment

/-! A line that says nothing, put in between two lines of a script. Wherever it falls, in code, in
the middle of a statement, or in a block comment, it is an empty line once comments are gone. So the
script is read as before, and only the lines below it have other numbers. -/
namespace SignatureIndex

open Text

namespace Source

/-- A line that says nothing: blanks, or blanks and a line comment without a star. -/
inductive Idle : List Char → Prop where
  | blank {line : List Char} (hLine : ∀ c ∈ line, isBlank c = true ∧ c ≠ '\n') : Idle line
  | comment {indent body : List Char} (hIndent : ∀ c ∈ indent, isBlank c = true ∧ c ≠ '\n')
      (hFeed : '\n' ∉ body) (hStar : '*' ∉ body) : Idle (indent ++ '/' :: '/' :: body)

section Blocks

variable {line : List Char}

/-- Without a closing mark a block comment has no end. -/
theorem blockEnd?_eq_none {text : List Char} (h : ¬['*', '/'] <:+: text) :
    blockEnd? text = none := by
  cases hEnd : blockEnd? text with
  | none => rfl
  | some ending =>
      obtain ⟨body, -, hText⟩ := exists_of_blockEnd? hEnd
      exact absurd ⟨body, ending.2, by simp [hText]⟩ h

/-- A block comment that is never closed is kept. -/
theorem blankBlocks_unclosed {rest : List Char} (h : ¬['*', '/'] <:+: rest) :
    blankBlocks ('/' :: '*' :: rest) = '/' :: blankBlocks ('*' :: rest) := by
  have hEnd := blockEnd?_eq_none h
  rw [blankBlocks]
  split
  · next hOther =>
      rw [hEnd] at hOther
      cases hOther
  · rfl

/-- Without block comments a line without stars is the same line still, or it is empty. -/
theorem blankBlocks_inserted (hStar : '*' ∉ line) (hFeed : '\n' ∉ line) (above below : List Char) :
    ∃ front back kept, (kept = line ∨ kept = []) ∧ front.count '\n' = above.count '\n' ∧
      blankBlocks (above ++ '\n' :: below) = front ++ '\n' :: back ∧
      blankBlocks (above ++ '\n' :: (line ++ '\n' :: below)) =
        front ++ '\n' :: (kept ++ '\n' :: back) := by
  have hNext (more : List Char) : blankBlocks ('\n' :: more) = '\n' :: blankBlocks more :=
    blankBlocks.eq_3 '\n' more (by simp)
  fun_induction blankBlocks above with
  | case1 =>
      have hLine := @blankBlocks_append line ('\n' :: below) (not_isInfix_of_not_mem hStar)
        (by simp)
      refine ⟨[], blankBlocks below, line, .inl rfl, rfl, hNext below, ?_⟩
      rw [List.nil_append, hNext, hLine, hNext, List.nil_append]
  | case2 rest feeds after hEnd ih =>
      obtain ⟨body, hBody, rfl⟩ := exists_of_blockEnd? hEnd
      obtain ⟨front, back, kept, hKept, hCount, hPlain, hInserted⟩ := ih
      refine ⟨List.replicate (body.count '\n') '\n' ++ front, back, kept, hKept, ?_, ?_, ?_⟩
      · simp [hCount]
      · simp only [List.cons_append, List.append_assoc]
        rw [blankBlocks_block hBody, hPlain]
      · simp only [List.cons_append, List.append_assoc]
        rw [blankBlocks_block hBody, hInserted]
  | case3 rest hEnd ih =>
      have hRest := not_isInfix_of_blockEnd?_eq_none hEnd
      have hApart {text : List Char} (hText : ¬['*', '/'] <:+: text) :
          ¬['*', '/'] <:+: rest ++ '\n' :: text :=
        not_isInfix_append_cons (by decide) (by decide) hRest hText
      have hLine {text : List Char} (hText : ¬['*', '/'] <:+: text) :
          ¬['*', '/'] <:+: line ++ '\n' :: text :=
        not_isInfix_append_of_not_mem hStar (not_isInfix_of_cons (by simp) hText)
      cases hBelow : blockEnd? below with
      | some ending =>
          -- the comment goes over the line and is closed below it
          obtain ⟨body, hBody, rfl⟩ := exists_of_blockEnd? hBelow
          refine ⟨List.replicate (rest.count '\n') '\n',
            List.replicate (body.count '\n') '\n' ++ blankBlocks ending.2, [], .inr rfl, ?_, ?_, ?_⟩
          · simp
          · have hBlock := blankBlocks_block (hApart hBody) ending.2
            simpa [List.replicate_add, List.replicate_succ] using hBlock
          · have hBlock := blankBlocks_block (hApart (hLine hBody)) ending.2
            simpa [List.replicate_add, List.replicate_succ, List.count_eq_zero.mpr hFeed]
              using hBlock
      | none =>
          have hBody := not_isInfix_of_blockEnd?_eq_none hBelow
          obtain ⟨front, back, kept, hKept, hCount, hPlain, hInserted⟩ := ih
          refine ⟨'/' :: front, back, kept, hKept, ?_, ?_, ?_⟩
          · simpa using hCount
          · rw [List.cons_append, List.cons_append, blankBlocks_unclosed (hApart hBody),
              ← List.cons_append, hPlain, List.cons_append]
          · rw [List.cons_append, List.cons_append, blankBlocks_unclosed (hApart (hLine hBody)),
              ← List.cons_append, hInserted, List.cons_append]
  | case4 c rest hPlain ih =>
      obtain ⟨front, back, kept, hKept, hCount, hPlain', hInserted⟩ := ih
      have hStill (more other : List Char) (hc : c = '/') : rest ++ '\n' :: more ≠ '*' :: other :=
        append_ne_cons (fun after => hPlain after hc) (by simp) other
      refine ⟨c :: front, back, kept, hKept, ?_, ?_, ?_⟩
      · rw [List.count_cons, List.count_cons, hCount]
      · rw [List.cons_append, blankBlocks.eq_3 c _ (hStill _), hPlain', List.cons_append]
      · rw [List.cons_append, blankBlocks.eq_3 c _ (hStill _), hInserted, List.cons_append]

end Blocks

namespace Idle

variable {line : List Char}

theorem star_not_mem (h : Idle line) : '*' ∉ line := by
  cases h with
  | blank hLine => exact fun hMem => absurd (hLine '*' hMem).1 (by decide)
  | comment hIndent _ hStar =>
      simp only [List.mem_append, List.mem_cons, not_or]
      exact ⟨fun hMem => absurd (hIndent '*' hMem).1 (by decide), by decide, by decide, hStar⟩

theorem feed_not_mem (h : Idle line) : '\n' ∉ line := by
  cases h with
  | blank hLine => exact fun hMem => (hLine '\n' hMem).2 rfl
  | comment hIndent hFeed _ =>
      simp only [List.mem_append, List.mem_cons, not_or]
      exact ⟨fun hMem => (hIndent '\n' hMem).2 rfl, by decide, by decide, hFeed⟩

/-- Only blanks are left of an idle line. -/
theorem dropLineComments_blank (h : Idle line) : ∀ c ∈ dropLineComments line, isBlank c = true := by
  cases h with
  | blank hLine =>
      rw [dropLineComments_of_unmarked (unmarked_of_not_mem (slash_not_mem_of_blank hLine))]
      exact fun c hc => (hLine c hc).1
  | comment hIndent hFeed _ =>
      rw [dropLineComments_indented (slash_not_mem_of_blank hIndent) hFeed]
      exact fun c hc => (hIndent c hc).1

end Idle

/-- Without comments an idle line is one blank line more, and everything around it stays. -/
theorem stripComments_inserted {line : List Char} (h : Idle line) (above below : List Char) :
    ∃ front back blank, '\n' ∉ blank ∧ trim blank = [] ∧ front.count '\n' = above.count '\n' ∧
      stripComments (above ++ '\n' :: below) = front ++ '\n' :: back ∧
      stripComments (above ++ '\n' :: (line ++ '\n' :: below)) =
        front ++ '\n' :: (blank ++ '\n' :: back) := by
  obtain ⟨front, back, kept, hKept, hCount, hPlain, hInserted⟩ :=
    blankBlocks_inserted h.star_not_mem h.feed_not_mem above below
  refine ⟨dropLineComments front, dropLineComments back, dropLineComments kept, ?_, ?_, ?_, ?_, ?_⟩
  · rcases hKept with rfl | rfl
    · exact fun hMem => h.feed_not_mem ((dropLineComments_sublist kept).subset hMem)
    · simp [dropLineComments]
  · rw [trim_eq_nil_iff]
    rcases hKept with rfl | rfl
    · exact h.dropLineComments_blank
    · simp [dropLineComments]
  · rw [dropLineComments_count, hCount]
  · rw [stripComments, hPlain, dropLineComments_append_feed]
  · rw [stripComments, hInserted, dropLineComments_append_feed, dropLineComments_append_feed]

end Source

namespace Scan

open Source

/-- The lines that count are the same, and those below the idle line have the next number. -/
theorem numberedLines_inserted {line : List Char} (h : Idle line) (above below : List Char) :
    numberedLines (above ++ '\n' :: (line ++ '\n' :: below)) =
      (numberedLines (above ++ '\n' :: below)).map
        (renumberedLine (.insertion (List.splitOn '\n' above).length)) := by
  obtain ⟨front, back, blank, hFeed, hBlank, hCount, hPlain, hInserted⟩ :=
    stripComments_inserted h above below
  have hLength : (List.splitOn '\n' front).length = (List.splitOn '\n' above).length := by
    rw [length_splitOn, length_splitOn, hCount]
  have hLine : List.splitOn '\n' blank = [blank] := by
    exact List.splitOn_eq_singleton hFeed
  have hAbove := @numberedFrom_renumbered (.insertion (List.splitOn '\n' above).length) 1 1
    (List.splitOn '\n' front) fun index hIndex => Renumbering.number_of_le (by omega)
  have hBelow := @numberedFrom_renumbered (.insertion (List.splitOn '\n' above).length)
    (1 + (List.splitOn '\n' front).length) (1 + (List.splitOn '\n' front).length + 1)
    (List.splitOn '\n' back) fun index hIndex => by
      rw [Renumbering.number_of_lt (by omega)]
      omega
  rw [numberedLines_eq_numberedFrom, numberedLines_eq_numberedFrom, hPlain, hInserted,
    List.splitOn_append_cons_self, List.splitOn_append_cons_self,
    List.splitOn_append_cons_self, hLine, List.singleton_append,
    numberedFrom_append, numberedFrom_append, numberedFrom_cons, if_pos hBlank, List.nil_append,
    List.map_append, hAbove, hBelow]

/-- An idle line only moves the lines below it. Wherever it is put in between two lines, also inside
a statement or a block comment, the same signatures are found, with the line numbers of those below
it increased by one; the same is told on the way; and the scan ends in the same state. -/
theorem readScript_inserted (state : State) (above line below : List Char)
    (source : Option String) (hLine : Idle line) :
    let count := (List.splitOn '\n' above).length
    let plain := readScript state (above ++ '\n' :: below) source
    let inserted := readScript state (above ++ '\n' :: (line ++ '\n' :: below)) source
    inserted.signatures = plain.signatures.map (fun signature =>
        { signature with
          line := signature.line.map fun n => if (count : Int) < n then n + 1 else n }) ∧
      inserted.state = plain.state ∧
      inserted.events = plain.events.map (·.renumbered (.insertion count)) := by
  intro count plain inserted
  have hRead : inserted = plain.renumbered (.insertion count) := by
    show readLines source state none (numberedLines _) = _
    rw [numberedLines_inserted hLine, ← Option.map_none, readLines_renumbered]
    rfl
  rw [hRead]
  exact ⟨rfl, rfl, rfl⟩

/-- A comment line put into a block comment in the middle of a declaration. -/
theorem readScript_inserted_in_declaration :
    let above := "class A\n\x7b\n  int F(int a, /* x".toList
    let line := "\t// y".toList
    let below := "z */ int b);\n  int G();\n\x7d".toList
    let plain := readScript .initial (above ++ '\n' :: below) none
    let inserted := readScript .initial (above ++ '\n' :: (line ++ '\n' :: below)) none
    Idle line ∧ plain.signatures.map (·.label) = ["int F(int a, int b)", "int G()"] ∧
      plain.signatures.map (·.line) = [some 3, some 5] ∧
      inserted.signatures.map (·.line) = [some 3, some 6] ∧ inserted.state = plain.state := by
  intro above line below plain inserted
  have hBlank : isBlank '\t' = true ∧ '\t' ≠ '\n' := by decide
  have hLine : Idle line :=
    @Idle.comment ['\t'] [' ', 'y'] (by simpa using hBlank) (by decide) (by decide)
  obtain ⟨hSignatures, hState, -⟩ := readScript_inserted .initial above line below none hLine
  have hPlain : plain.signatures.map (·.line) = [some 3, some 5] := by decide +kernel
  have hCount : (List.splitOn '\n' above).length = 3 := by decide +kernel
  have hMoved : inserted.signatures.map (·.line) = (plain.signatures.map (·.line)).map
      (Option.map fun n => if ((List.splitOn '\n' above).length : Int) < n then n + 1 else n) := by
    rw [hSignatures, List.map_map, List.map_map]
    rfl
  rw [hPlain, hCount] at hMoved
  exact ⟨hLine, by decide +kernel, hPlain, hMoved, hState⟩

end Scan

end SignatureIndex
