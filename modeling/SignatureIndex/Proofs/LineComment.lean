import Mathlib.Data.List.Infix
import SignatureIndex.Proofs.Comment
import SignatureIndex.Scan
import SignatureIndex.Source.Include

/-! The bodies of line comments. Block comments are removed before line comments, so a mark in the
body of a line comment that opens a block comment takes the code of later lines with it. The body
does not matter, whatever stands around it, exactly if each block comment that opens in it is closed
in it and the mark of the line comment stays whole. -/
namespace SignatureIndex.Source

section Blocks

variable {text after : List Char} {feeds : Nat}

/-- The end of a block comment is behind the first closing mark. -/
theorem exists_of_blockEnd? (h : blockEnd? text = some (feeds, after)) :
    ∃ body, ¬['*', '/'] <:+: body ∧ text = body ++ '*' :: '/' :: after := by
  fun_induction blockEnd? text generalizing feeds after with
  | case1 => cases h
  | case2 rest =>
      cases h
      exact ⟨[], by simp, rfl⟩
  | case3 => cases h
  | case4 c rest hPlain feeds' after' hEnd ih =>
      cases h
      obtain ⟨body, hBody, rfl⟩ := ih hEnd
      refine ⟨c :: body, not_isInfix_of_cons ?_ hBody, rfl⟩
      rintro more hc rfl
      exact hPlain _ hc rfl

/-- A mark is not in a longer text if the last character does not end it. -/
theorem not_isInfix_concat {c d e : Char} (h : ¬[c, d] <:+: text) (hLast : d ≠ e) :
    ¬[c, d] <:+: text ++ [e] := by
  rw [List.infix_concat_iff]
  rintro (⟨front, hFront⟩ | hInfix)
  · have hSame := congrArg List.getLast? hFront
    exact hLast (by simpa using hSame)
  · exact h hInfix

/-- Where no end is found there is no closing mark. -/
theorem not_isInfix_of_blockEnd?_eq_none (h : blockEnd? text = none) : ¬['*', '/'] <:+: text := by
  fun_induction blockEnd? text with
  | case1 => simp
  | case2 rest => cases h
  | case3 c rest hPlain hRest ih => exact not_isInfix_of_cons hPlain (ih hRest)
  | case4 c rest _ _ _ hEnd _ => cases h

theorem BlocksClosed.cons {c : Char} (hPlain : ∀ rest, c = '/' → text = '*' :: rest → False)
    (h : BlocksClosed text) : BlocksClosed (c :: text) := by
  cases h with
  | outside hText => exact .outside (not_isInfix_of_cons hPlain hText)
  | @block front body rest hFront hBody hRest =>
      have hFirst : ¬['/', '*'] <:+: c :: front := by
        refine not_isInfix_of_cons ?_ hFront
        rintro more hc rfl
        exact hPlain _ hc rfl
      exact .block hFirst hBody hRest

/-- The block comments of a text are closed, or the last one reaches to the next mark that closes
one, over the end of the line. -/
theorem closed_or_swallows (text : List Char) :
    BlocksClosed text ∨ ∃ kept, ∀ more,
      blankBlocks (text ++ '\n' :: '*' :: '/' :: more) = kept ++ '\n' :: blankBlocks more := by
  fun_induction blankBlocks text with
  | case1 => exact .inl (.outside (by simp))
  | case2 rest feeds after hEnd ih =>
      obtain ⟨body, hBody, rfl⟩ := exists_of_blockEnd? hEnd
      rcases ih with hClosed | ⟨kept, hKept⟩
      · exact .inl (@BlocksClosed.block [] body after (by simp) hBody hClosed)
      · refine .inr ⟨List.replicate (body.count '\n') '\n' ++ kept, fun more => ?_⟩
        rw [List.append_assoc, ← hKept]
        simpa using blankBlocks_block hBody (after ++ '\n' :: '*' :: '/' :: more)
  | case3 rest hEnd _ =>
      -- the line feed goes into the comment, which is closed behind it
      have hBody : ¬['*', '/'] <:+: rest ++ ['\n'] :=
        not_isInfix_concat (not_isInfix_of_blockEnd?_eq_none hEnd) (by decide)
      refine .inr ⟨List.replicate (rest.count '\n') '\n', fun more => ?_⟩
      have hBlock := blankBlocks_block hBody more
      rw [List.count_append, List.count_singleton_self, List.replicate_succ'] at hBlock
      simpa using hBlock
  | case4 c rest hPlain ih =>
      rcases ih with hClosed | ⟨kept, hKept⟩
      · exact .inl (hClosed.cons hPlain)
      · refine .inr ⟨c :: kept, fun more => ?_⟩
        have hStill (other : List Char) (hc : c = '/') :
            rest ++ '\n' :: '*' :: '/' :: more ≠ '*' :: other :=
          append_ne_cons (fun after => hPlain after hc) (by simp) other
        rw [List.cons_append, blankBlocks.eq_3 c _ hStill, hKept, List.cons_append]

end Blocks

section Bodies

variable {body before after rest : List Char}

/-- A line comment with this body leaves nothing of itself behind and takes nothing else with it. -/
structure Harmless (body : List Char) : Prop where
  closed : BlocksClosed ('/' :: '/' :: body)
  removed : stripComments ('/' :: '/' :: body) = []

theorem dropWhile_feedless (h : '\n' ∉ rest) :
    rest.dropWhile (fun c => decide (c ≠ '\n')) = [] := by
  apply List.dropWhile_eq_nil_iff.mpr
  intro c hc
  exact decide_eq_true fun hFeed => h (hFeed ▸ hc)

theorem dropLineComments_mark (h : '\n' ∉ rest) : dropLineComments ('/' :: '/' :: rest) = [] := by
  rw [dropLineComments, dropWhile_feedless h, dropLineComments]

/-- What follows the mark of a line comment on its line does not matter. -/
theorem dropLineComments_append_mark (before : List Char) (hRest : '\n' ∉ rest) :
    dropLineComments (before ++ '/' :: '/' :: rest) = dropLineComments (before ++ ['/', '/']) := by
  fun_induction dropLineComments before with
  | case1 =>
      rw [List.nil_append, List.nil_append, dropLineComments_mark hRest,
        dropLineComments_mark (by simp)]
  | case2 line ih =>
      simp only [List.cons_append]
      rw [dropLineComments, dropLineComments, List.dropWhile_append, List.dropWhile_append]
      split
      · -- the line is a comment already
        rw [dropWhile_feedless (by simpa using hRest), dropWhile_feedless (by simp)]
      · exact ih
  | case3 c front hPlain ih =>
      rw [List.cons_append, List.cons_append]
      by_cases hMark : c = '/' ∧ front = []
      · -- the slash before the mark and the first slash of it are a mark themselves
        obtain ⟨rfl, rfl⟩ := hMark
        rw [List.nil_append, List.nil_append, dropLineComments_mark (by simpa using hRest),
          dropLineComments_mark (by simp)]
      · have hStill (tail other : List Char) (hc : c = '/') : front ++ tail ≠ '/' :: other := by
          intro hSlash
          cases front with
          | nil => exact hMark ⟨hc, rfl⟩
          | cons d front =>
              obtain ⟨rfl, -⟩ := List.cons.inj hSlash
              exact hPlain front hc rfl
        rw [dropLineComments.eq_3 c _ (hStill _), dropLineComments.eq_3 c _ (hStill _), ih]

/-- The mark of a harmless comment is still there when its block comments are gone. -/
theorem Harmless.exists_mark (h : Harmless body) (hBody : '\n' ∉ body) :
    ∃ rest, '\n' ∉ rest ∧ blankBlocks ('/' :: '/' :: body) = '/' :: '/' :: rest := by
  have hRemoved : dropLineComments (blankBlocks ('/' :: '/' :: body)) = [] := h.removed
  have hFeeds := blankBlocks_count ('/' :: '/' :: body)
  rw [blankBlocks.eq_3 '/' ('/' :: body) (by simp)] at hRemoved hFeeds ⊢
  by_cases hMark : ∃ rest, blankBlocks ('/' :: body) = '/' :: rest
  · obtain ⟨rest, hRest⟩ := hMark
    refine ⟨rest, ?_, by rw [hRest]⟩
    rw [hRest] at hFeeds
    rw [← List.count_eq_zero]
    simpa [List.count_eq_zero.mpr hBody] using hFeeds
  · -- a slash alone would be kept
    rw [dropLineComments.eq_3 '/' _ fun rest _ hRest => hMark ⟨rest, hRest⟩] at hRemoved
    cases hRemoved

/-- A harmless line comment goes, and what follows its line is stripped by itself. -/
theorem Harmless.stripComments (h : Harmless body) (hBody : '\n' ∉ body)
    (hBefore : ¬['/', '*'] <:+: before) (after : List Char) :
    Source.stripComments (before ++ '/' :: '/' :: (body ++ '\n' :: after)) =
      dropLineComments (before ++ ['/', '/']) ++ '\n' :: Source.stripComments after := by
  obtain ⟨rest, hRest, hMark⟩ := h.exists_mark hBody
  have hBlocks := blankBlocks_append_feed h.closed after
  rw [List.cons_append, List.cons_append] at hBlocks
  rw [Source.stripComments, blankBlocks_append hBefore (by simp), hBlocks, hMark,
    ← List.append_assoc, dropLineComments_append_feed, dropLineComments_append_mark before hRest]
  rfl

/-- A line comment that opens no block is harmless. -/
theorem harmless_of_unopened (hBody : '\n' ∉ body) (hOpen : ¬['/', '*'] <:+: '/' :: body) :
    Harmless body := by
  have hWhole : ¬['/', '*'] <:+: '/' :: '/' :: body := not_isInfix_of_cons (by simp) hOpen
  have hSame := blankBlocks_append hWhole (show ∀ c ∈ [].head?, c ≠ '*' by simp)
  rw [List.append_nil, blankBlocks, List.append_nil] at hSame
  refine ⟨.outside hWhole, ?_⟩
  rw [Source.stripComments, hSame, dropLineComments_mark hBody]

theorem harmless_nil : Harmless [] :=
  harmless_of_unopened (by simp) (by decide)

/-- A body that does not matter in any place is harmless: behind an open block comment the next mark
that closes one would be lost, and behind a broken mark the rest of the body would be kept. -/
theorem harmless_of_irrelevant
    (h : ∀ after, stripComments ('/' :: '/' :: (body ++ '\n' :: after)) =
      stripComments ('/' :: '/' :: '\n' :: after)) : Harmless body := by
  have hPlain (after : List Char) :
      stripComments ('/' :: '/' :: '\n' :: after) = '\n' :: stripComments after := by
    simpa [harmless_nil.removed] using stripComments_append_feed harmless_nil.closed after
  have hClosed : BlocksClosed ('/' :: '/' :: body) := by
    rcases closed_or_swallows ('/' :: '/' :: body) with hClosed | ⟨kept, hKept⟩
    · exact hClosed
    · have hSwallowed : stripComments ('/' :: '/' :: (body ++ ['\n', '*', '/'])) =
          dropLineComments kept ++ ['\n'] := by
        rw [stripComments, ← List.cons_append, ← List.cons_append, hKept,
          dropLineComments_append_feed, blankBlocks, dropLineComments]
      have hSame := h ['*', '/']
      rw [hSwallowed, hPlain, stripComments_of_unmarked (by decide)] at hSame
      simpa using congrArg List.getLast? hSame
  refine ⟨hClosed, ?_⟩
  have hSame := h []
  rw [hPlain, ← List.cons_append, ← List.cons_append, stripComments_append_feed hClosed] at hSame
  exact List.append_cancel_right hSame

end Bodies

/-- The body of a line comment does not matter in any place exactly if it is harmless, and it is
harmless if no block comment opens in it. So two scripts that differ only in the body of a line
comment, both of them harmless, are the same without comments, and declare and include the same. -/
theorem lineComment_irrelevant_iff (body : List Char) (hBody : '\n' ∉ body) :
    (Harmless body ↔ ∀ before after, ¬['/', '*'] <:+: before →
      stripComments (before ++ '/' :: '/' :: (body ++ '\n' :: after)) =
        stripComments (before ++ '/' :: '/' :: '\n' :: after)) ∧
    (¬['/', '*'] <:+: '/' :: body → Harmless body) ∧
    ∀ other before after, '\n' ∉ other → Harmless body → Harmless other →
      ¬['/', '*'] <:+: before →
      let script := before ++ '/' :: '/' :: (body ++ '\n' :: after)
      let script' := before ++ '/' :: '/' :: (other ++ '\n' :: after)
      stripComments script = stripComments script' ∧ includes script = includes script' ∧
        ∀ state source,
          Scan.readScript state script source = Scan.readScript state script' source := by
  refine ⟨⟨?_, ?_⟩, harmless_of_unopened hBody, ?_⟩
  · intro hHarmless before after hBefore
    rw [hHarmless.stripComments hBody hBefore]
    exact (harmless_nil.stripComments (by simp) hBefore after).symm
  · intro hSame
    exact harmless_of_irrelevant fun after => hSame [] after (by simp)
  · intro other before after hOther hHarmless hHarmless' hBefore script script'
    have hSame : stripComments script = stripComments script' := by
      rw [hHarmless.stripComments hBody hBefore, hHarmless'.stripComments hOther hBefore]
    refine ⟨hSame, by rw [includes, includes, hSame], ?_⟩
    intro state source
    rw [Scan.readScript, Scan.readScript, Scan.numberedLines, Scan.numberedLines, hSame]

/-- A line comment with a closed block comment in it, and one with other text. -/
theorem lineComment_with_closed_block :
    let body := " a /* b */ c".toList
    let other := " d".toList
    let before := "class A\n\x7b\n  int F(); ".toList
    let after := "  int G();\n\x7d".toList
    let script := before ++ '/' :: '/' :: (body ++ '\n' :: after)
    let script' := before ++ '/' :: '/' :: (other ++ '\n' :: after)
    '\n' ∉ body ∧ '\n' ∉ other ∧ Harmless body ∧ Harmless other ∧ ¬['/', '*'] <:+: before ∧
      (Scan.readScript .initial script' none).signatures.map (·.label) = ["int F()", "int G()"] ∧
      Scan.readScript .initial script none = Scan.readScript .initial script' none := by
  intro body other before after script script'
  have hBody : '\n' ∉ body := by decide +kernel
  have hOther : '\n' ∉ other := by decide +kernel
  have hBefore : ¬['/', '*'] <:+: before := by decide +kernel
  have hHarmless : Harmless body := by
    have hParts : '/' :: '/' :: body =
        "// a ".toList ++ '/' :: '*' :: (" b ".toList ++ '*' :: '/' :: " c".toList) := by
      decide +kernel
    refine ⟨?_, by decide +kernel⟩
    rw [hParts]
    exact .block (by decide +kernel) (by decide +kernel) (.outside (by decide +kernel))
  have hHarmless' : Harmless other :=
    (lineComment_irrelevant_iff other hOther).2.1 (by decide +kernel)
  obtain ⟨-, -, hSame⟩ := lineComment_irrelevant_iff body hBody
  exact ⟨hBody, hOther, hHarmless, hHarmless', hBefore, by decide +kernel,
    (hSame other before after hOther hHarmless hHarmless' hBefore).2.2 .initial none⟩

/-- A line comment with a mark that opens a block comment hides the declarations and includes behind
it, up to the next block comment. -/
theorem lineComment_hides_code :
    ∃ before body other after, ¬['/', '*'] <:+: before ∧ '\n' ∉ body ∧ '\n' ∉ other ∧
      let script := before ++ '/' :: '/' :: (body ++ '\n' :: after)
      let script' := before ++ '/' :: '/' :: (other ++ '\n' :: after)
      stripComments script ≠ stripComments script' ∧
      includes script = [] ∧ includes script' = ["a.zs".toList] ∧
      (Scan.signatures script none).map (·.label) = [] ∧
      (Scan.signatures script' none).map (·.label) = ["int F()"] := by
  refine ⟨"class A\n\x7b\n".toList, " /*".toList, [],
    "int F();\n\x7d\n#include \"a.zs\"\n/* */".toList, ?_⟩
  decide +kernel

end SignatureIndex.Source
