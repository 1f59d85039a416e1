import SignatureIndex.Proofs.LineComment
import SignatureIndex.Proofs.Text

/-! What a script loses with its comments. Its lines stay lines of the same numbers: each is left
with some of its characters, in order, and with no mark of a line comment. A script that is written
as code and comments one behind the other loses exactly the comments. -/
namespace SignatureIndex.Source

open Text

section Lines

theorem blankBlocks_sublist (text : List Char) : List.Sublist (blankBlocks text) text := by
  fun_induction blankBlocks text with
  | case1 => exact .slnil
  | case2 rest feeds after hEnd ih =>
      obtain ⟨body, hBody, rfl⟩ := exists_of_blockEnd? hEnd
      have hCount := blockEnd?_append hBody after
      rw [hEnd] at hCount
      cases hCount
      have hFeeds : List.Sublist (List.replicate (body.count '\n') '\n') body :=
        List.replicate_sublist_iff.mpr (Nat.le_refl _)
      exact ((hFeeds.append ((ih.cons '/').cons '*')).cons '*').cons '/'
  | case3 rest hEnd ih => exact ih.cons_cons '/'
  | case4 c rest _ ih => exact ih.cons_cons c

theorem dropLineComments_sublist (text : List Char) :
    List.Sublist (dropLineComments text) text := by
  fun_induction dropLineComments text with
  | case1 => exact .slnil
  | case2 rest ih => exact ((ih.trans (List.dropWhile_sublist _)).cons '/').cons '/'
  | case3 c rest _ ih => exact ih.cons_cons c

/-- Stripping comments only takes characters away. -/
theorem stripComments_sublist (text : List Char) : List.Sublist (stripComments text) text :=
  (dropLineComments_sublist _).trans (blankBlocks_sublist text)

/-- What is left of a text starts with the first character of the text unless a mark does. -/
theorem dropLineComments_ne_slash {text : List Char} (h : ∀ rest, text ≠ '/' :: rest)
    (rest : List Char) : dropLineComments text ≠ '/' :: rest := by
  cases text with
  | nil => simp [dropLineComments]
  | cons c text =>
      have hc : c ≠ '/' := fun hSlash => h text (by rw [hSlash])
      rw [dropLineComments.eq_3 c text fun _ hSlash => absurd hSlash hc]
      exact fun hSame => hc (List.cons.inj hSame).1

/-- No line comment is left. -/
theorem dropLineComments_unmarked (text : List Char) :
    ¬['/', '/'] <:+: dropLineComments text := by
  fun_induction dropLineComments text with
  | case1 => simp
  | case2 rest ih => exact ih
  | case3 c rest hPlain ih =>
      refine not_isInfix_of_cons (fun after hc => ?_) ih
      exact dropLineComments_ne_slash (fun other => hPlain other hc) after

end Lines

/-- A part of a script: code without comment marks, which cannot make one together with its
neighbours; a block comment, up to the first mark that closes it; or a line comment with its line
feed, in which no block comment opens. -/
inductive Segment where
  | code (text : List Char) (unmarked : ¬['/', '/'] <:+: text ∧ ¬['/', '*'] <:+: text)
      (start : ∀ c ∈ text.head?, c ≠ '/' ∧ c ≠ '*') (finish : ∀ c ∈ text.getLast?, c ≠ '/')
  | block (body : List Char) (unclosed : ¬['*', '/'] <:+: body)
  | line (body : List Char) (feedless : '\n' ∉ body) (unopened : ¬['/', '*'] <:+: body)
      (start : ∀ c ∈ body.head?, c ≠ '*')

namespace Segment

def text : Segment → List Char
  | code text _ _ _ => text
  | block body _ => '/' :: '*' :: (body ++ ['*', '/'])
  | line body _ _ _ => '/' :: '/' :: (body ++ ['\n'])

/-- What a segment leaves once block comments are gone. -/
def unblocked : Segment → List Char
  | code text _ _ _ => text
  | block body _ => List.replicate (body.count '\n') '\n'
  | line body _ _ _ => '/' :: '/' :: (body ++ ['\n'])

/-- What a segment leaves once all comments are gone. -/
def kept : Segment → List Char
  | code text _ _ _ => text
  | block body _ => List.replicate (body.count '\n') '\n'
  | line _ _ _ _ => ['\n']

end Segment

section Segments

theorem head?_segments (segments : List Segment) :
    ∀ c ∈ (segments.flatMap Segment.text).head?, c ≠ '*' := by
  induction segments with
  | nil => simp
  | cons segment rest ih =>
      intro c hc
      rw [List.flatMap_cons, List.head?_append] at hc
      cases segment with
      | code text _ hStart _ =>
          cases text with
          | nil => exact ih c hc
          | cons d text => exact (hStart c hc).2
      | block body _ =>
          cases hc
          decide
      | line body _ _ _ =>
          cases hc
          decide

/-- Without block comments, segments are what each leaves of itself. -/
theorem blankBlocks_segments (segments : List Segment) :
    blankBlocks (segments.flatMap Segment.text) = segments.flatMap Segment.unblocked := by
  induction segments with
  | nil => rw [List.flatMap_nil, List.flatMap_nil, blankBlocks]
  | cons segment rest ih =>
      rw [List.flatMap_cons, List.flatMap_cons, ← ih]
      cases segment with
      | code text hUnmarked _ _ => exact blankBlocks_append hUnmarked.2 (head?_segments rest)
      | block body hBody =>
          have hBlock := blankBlocks_block hBody (rest.flatMap Segment.text)
          simpa [Segment.text, Segment.unblocked] using hBlock
      | line body _ hOpen hStart =>
          have hPlain : ∀ rest, body ++ ['\n'] ≠ '*' :: rest :=
            append_ne_cons (by rintro rest rfl; exact hStart '*' rfl rfl) (by simp)
          have hFront : ¬['/', '*'] <:+: '/' :: '/' :: (body ++ ['\n']) := by
            refine not_isInfix_of_cons (by simp) (not_isInfix_of_cons ?_ ?_)
            · exact fun rest _ => hPlain rest
            · exact not_isInfix_concat hOpen (by decide)
          exact blankBlocks_append hFront (head?_segments rest)

/-- Code that does not end in a slash is kept as it is. -/
theorem dropLineComments_append {front : List Char} (hFront : ¬['/', '/'] <:+: front)
    (hLast : ∀ c ∈ front.getLast?, c ≠ '/') (tail : List Char) :
    dropLineComments (front ++ tail) = front ++ dropLineComments tail := by
  induction front with
  | nil => rfl
  | cons c front ih =>
      obtain ⟨hStart, hRest⟩ := not_isInfix_cons hFront
      have hPlain : ∀ after, c = '/' → front ++ tail = '/' :: after → False := by
        intro after hc hSame
        cases front with
        | nil => exact hLast c (by simp) hc
        | cons d front =>
            obtain ⟨rfl, -⟩ := List.cons.inj hSame
            exact hStart hc front rfl
      have hLater : ∀ d ∈ front.getLast?, d ≠ '/' := by
        intro d hd
        cases front with
        | nil => cases hd
        | cons e front => exact hLast d (by simpa using hd)
      rw [List.cons_append, dropLineComments.eq_3 c _ hPlain, ih hRest hLater, List.cons_append]

/-- A line comment behind text without slashes leaves that text. -/
theorem dropLineComments_indented {indent body : List Char} (hIndent : '/' ∉ indent)
    (hBody : '\n' ∉ body) : dropLineComments (indent ++ '/' :: '/' :: body) = indent := by
  rw [dropLineComments_append (fun hMark => hIndent (hMark.subset List.mem_cons_self))
    (fun c hc hSlash => hIndent (hSlash ▸ List.mem_of_mem_getLast? hc)),
    dropLineComments_mark hBody, List.append_nil]

theorem slash_not_mem_of_blank {cs : List Char} (h : ∀ c ∈ cs, isBlank c = true ∧ c ≠ '\n') :
    '/' ∉ cs :=
  fun hMem => absurd (h '/' hMem).1 (by decide)

/-- Without line comments, segments are what each keeps. -/
theorem dropLineComments_segments (segments : List Segment) :
    dropLineComments (segments.flatMap Segment.unblocked) = segments.flatMap Segment.kept := by
  induction segments with
  | nil => rw [List.flatMap_nil, List.flatMap_nil, dropLineComments]
  | cons segment rest ih =>
      rw [List.flatMap_cons, List.flatMap_cons, ← ih]
      cases segment with
      | code text hUnmarked _ hLast => exact dropLineComments_append hUnmarked.1 hLast _
      | block body _ =>
          have hFeeds : ∀ c ∈ List.replicate (body.count '\n') '\n', c ≠ '/' := by
            intro c hc
            rw [List.eq_of_mem_replicate hc]
            decide
          refine dropLineComments_append (fun hMark => ?_) (fun c hc => ?_) _
          · exact hFeeds '/' (hMark.subset List.mem_cons_self) rfl
          · exact hFeeds c (List.mem_of_mem_getLast? hc)
      | line body hFeed _ _ =>
          have hFeeds := dropLineComments_append_feed ('/' :: '/' :: body)
            (rest.flatMap Segment.unblocked)
          rw [dropLineComments_mark hFeed] at hFeeds
          simpa [Segment.unblocked, Segment.kept] using hFeeds

end Segments

/-- Every line of a script is left with some of its characters and without the mark of a line
comment, and no line is lost. Of code and comments one behind the other the code is left as it is,
of each block comment its line feeds, and of each line comment its one line feed. -/
theorem stripComments_removes_comments :
    (∀ text : List Char,
      List.Forall₂ List.Sublist (List.splitOn '\n' (stripComments text)) (List.splitOn '\n' text) ∧
      ∀ line ∈ List.splitOn '\n' (stripComments text), ¬['/', '/'] <:+: line) ∧
    ∀ segments : List Segment,
      stripComments (segments.flatMap Segment.text) = segments.flatMap Segment.kept := by
  refine ⟨fun text => ⟨?_, fun line hLine hMark => ?_⟩, fun segments => ?_⟩
  · exact splitOn_sublist (stripComments_sublist text) (stripComments_count text)
  · exact dropLineComments_unmarked _ (hMark.trans (isInfix_of_mem_splitOn hLine))
  · rw [stripComments, blankBlocks_segments, dropLineComments_segments]

/-- Code around a block comment over two lines, and a line comment behind it. -/
def commentedCode : List Segment :=
  [.code ['a', ' '] (by decide) (fun _ hc => Option.some.inj hc ▸ by decide)
      (fun _ hc => Option.some.inj hc ▸ by decide),
    .block [' ', '\n'] (by decide),
    .code ['b', ' '] (by decide) (fun _ hc => Option.some.inj hc ▸ by decide)
      (fun _ hc => Option.some.inj hc ▸ by decide),
    .line [' ', 'c'] (by decide) (by decide) (fun _ hc => Option.some.inj hc ▸ by decide)]

theorem stripComments_of_commentedCode :
    commentedCode.flatMap Segment.text = "a /* \n*/b // c\n".toList ∧
      stripComments "a /* \n*/b // c\n".toList = "a \nb \n".toList := by
  have hText : commentedCode.flatMap Segment.text = "a /* \n*/b // c\n".toList := by decide
  have hKept : commentedCode.flatMap Segment.kept = "a \nb \n".toList := by decide
  have hStrip := stripComments_removes_comments.2 commentedCode
  rw [hText, hKept] at hStrip
  exact ⟨hText, hStrip⟩

-- two slashes around a block comment become a mark, and a block comment that is never closed stays
example : stripComments "x //**// y\n/* z".toList = "x \n/* z".toList := by
  decide +kernel

end SignatureIndex.Source
