import SignatureIndex.Proofs.Pattern
import SignatureIndex.Proofs.Segment

/-! Include directives. Blanks before a directive, and those behind its keyword, may be line feeds,
so a directive can be met from the start of an earlier line; but whatever place it is met from, it
is the same directive with the same path. So of a script whose lines are directives, line comments
and lines without the mark of a directive, exactly the directives are found. -/
namespace SignatureIndex.Source

open Text

section Marks

theorem unmarked_append_of_not_mem {front back : List Char} (hFront : '/' ∉ front)
    (hBack : Unmarked back) : Unmarked (front ++ back) := by
  induction front with
  | nil => exact hBack
  | cons c front ih =>
      rw [List.mem_cons, not_or] at hFront
      exact (ih hFront.2).cons (Ne.symm hFront.1)

theorem Unmarked.not_isInfix {text : List Char} (h : Unmarked text) :
    ¬['/', '*'] <:+: text := by
  intro hMark
  have hPair : ['/', '*'].IsChain fun c d => c = '/' → d ≠ '/' ∧ d ≠ '*' := h.infix hMark
  exact (List.isChain_pair.mp hPair rfl).2 rfl

/-- Lines that close their block comments lose their comments one by one. -/
theorem stripComments_intercalate {lines : List (List Char)}
    (h : ∀ line ∈ lines, BlocksClosed line) :
    stripComments (List.intercalate ['\n'] lines) =
      List.intercalate ['\n'] (lines.map stripComments) := by
  induction lines with
  | nil => exact stripComments_of_unmarked .nil
  | cons line rest ih =>
      obtain ⟨hLine, hRest⟩ := List.forall_mem_cons.mp h
      cases rest with
      | nil => simp
      | cons next rest =>
          have hTail := ih hRest
          simp only [List.map_cons, List.intercalate_cons_cons] at hTail ⊢
          rw [List.append_assoc, List.append_assoc, List.singleton_append, List.singleton_append,
            stripComments_append_feed hLine, hTail]

end Marks

/-- Text on one line without the mark of a directive and without comment marks. -/
structure Plain (text : List Char) : Prop where
  feedless : '\n' ∉ text
  hashless : '#' ∉ text
  unmarked : Unmarked text

/-- A directive on a line of its own: blanks, the keyword in any case, blanks, the path in quotes,
and plain text behind it. The path is not empty and has no blanks around it. -/
structure Directive where
  indent : List Char
  keyword : List Char
  gap : List Char
  path : List Char
  trailing : List Char
  indent_blank : ∀ c ∈ indent, isBlank c = true ∧ c ≠ '\n'
  keyword_spelled : keyword.map Char.toLower = "#include".toList
  gap_some : gap ≠ []
  gap_blank : ∀ c ∈ gap, isBlank c = true ∧ c ≠ '\n'
  path_some : path ≠ []
  path_trimmed : trim path = path
  path_feedless : '\n' ∉ path
  path_unquoted : '"' ∉ path
  path_unmarked : Unmarked path
  trailing_plain : Plain trailing

namespace Directive

/-- The directive from its keyword on, and what follows its closing quote. -/
def core (directive : Directive) (after : List Char) : List Char :=
  directive.keyword ++ (directive.gap ++ '"' :: (directive.path ++ '"' :: after))

def text (directive : Directive) : List Char :=
  directive.indent ++ directive.core directive.trailing

/-- A directive is its indentation, its core and what trails. -/
theorem text_append (directive : Directive) (rest : List Char) :
    directive.text ++ rest = directive.indent ++ directive.core (directive.trailing ++ rest) := by
  simp [text, core]

theorem slash_not_mem_keyword (directive : Directive) : '/' ∉ directive.keyword := by
  intro hMem
  have hLower : '/'.toLower ∈ directive.keyword.map Char.toLower := List.mem_map_of_mem hMem
  rw [directive.keyword_spelled] at hLower
  exact absurd hLower (by decide)

/-- No directive holds a comment mark. -/
theorem unmarked_text (directive : Directive) : Unmarked directive.text := by
  have hTrailing := directive.trailing_plain.unmarked.cons (show '"' ≠ '/' by decide)
  have hPath := directive.path_unmarked.append hTrailing (by simp)
  have hGap := unmarked_append_of_not_mem (slash_not_mem_of_blank directive.gap_blank)
    (hPath.cons (show '"' ≠ '/' by decide))
  exact unmarked_append_of_not_mem (slash_not_mem_of_blank directive.indent_blank)
    (unmarked_append_of_not_mem directive.slash_not_mem_keyword hGap)

end Directive

/-- A line of a script: a directive, a line comment in which no block comment opens, or a plain
line. -/
inductive Row where
  | directive (line : Directive)
  | comment (indent body : List Char) (indent_blank : ∀ c ∈ indent, isBlank c = true ∧ c ≠ '\n')
      (feedless : '\n' ∉ body) (unopened : ¬['/', '*'] <:+: body)
      (start : ∀ c ∈ body.head?, c ≠ '*')
  | other (text : List Char) (plain : Plain text)

namespace Row

def text : Row → List Char
  | directive line => line.text
  | comment indent body _ _ _ _ => indent ++ '/' :: '/' :: body
  | other text _ => text

/-- What is left of the line without comments. -/
def kept : Row → List Char
  | directive line => line.text
  | comment indent _ _ _ _ _ => indent
  | other text _ => text

/-- The path that the line names, as it is written. -/
def path? : Row → Option (List Char)
  | directive line => some line.path
  | comment _ _ _ _ _ _ => none
  | other _ _ => none

/-- No row opens a block comment. -/
theorem unopened_text (row : Row) : ¬['/', '*'] <:+: row.text := by
  cases row with
  | directive line => exact line.unmarked_text.not_isInfix
  | other text hPlain => exact hPlain.unmarked.not_isInfix
  | comment indent body hIndent _ hOpen hStart =>
      refine not_isInfix_append_of_not_mem (slash_not_mem_of_blank hIndent) ?_
      refine not_isInfix_of_cons (by simp) (not_isInfix_of_cons ?_ hOpen)
      rintro rest - rfl
      exact hStart '*' rfl rfl

/-- Without comments a row is what is kept of it. -/
theorem stripComments_text (row : Row) : stripComments row.text = row.kept := by
  cases row with
  | directive line => exact stripComments_of_unmarked line.unmarked_text
  | other text hPlain => exact stripComments_of_unmarked hPlain.unmarked
  | comment indent body hIndent hFeed hOpen hStart =>
      have hSame := blankBlocks_append
        (unopened_text (.comment indent body hIndent hFeed hOpen hStart))
        (show ∀ c ∈ [].head?, c ≠ '*' by simp)
      rw [List.append_nil, blankBlocks, List.append_nil] at hSame
      rw [stripComments, hSame]
      exact dropLineComments_indented (slash_not_mem_of_blank hIndent) hFeed

end Row

section Search

variable {β : Type} {before : Option Char} {front after text : List Char}

theorem rest_skipFrom (skipped : Char → Bool) (before : Option Char) (cs : List Char) :
    (Cursor.skipFrom skipped before cs).rest = cs.dropWhile skipped := by
  induction cs generalizing before with
  | nil => rfl
  | cons c cs ih =>
      rw [Cursor.skipFrom, List.dropWhile_cons]
      split
      · exact ih (some c)
      · rfl

/-- Skipping ends behind the characters to be skipped. -/
theorem skipFrom_append {skipped : Char → Bool} {rest : List Char}
    (hFront : ∀ c ∈ front, skipped c = true) (hRest : ∀ c ∈ rest.head?, ¬skipped c = true) :
    Cursor.skipFrom skipped before (front ++ rest) = Cursor.past before front rest := by
  induction front generalizing before with
  | nil =>
      cases rest with
      | nil => rfl
      | cons c rest => simp [Cursor.skipFrom, hRest c rfl]
  | cons c front ih =>
      obtain ⟨hc, hFront⟩ := List.forall_mem_cons.mp hFront
      rw [List.cons_append, Cursor.skipFrom, if_pos hc, ih hFront, ← List.singleton_append,
        Cursor.past_append]
      rfl

theorem eq_hash_of_toLower {c : Char} (h : c.toLower = '#') : c = '#' := by
  rcases toLower_cases c with ⟨hLow, -, hMoved⟩ | ⟨-, hSame⟩
  · rw [h] at hMoved
    have hHash : '#'.toNat = 35 := rfl
    omega
  · rw [← hSame, h]

/-- The keyword is read in every spelling of its case. -/
theorem run_keyword {spelled : List Char} (before : Option Char) (after : List Char)
    (accept : Cursor → Option β) :
    (Pattern.all ((spelled.map Char.toLower).map keywordChar)).run ⟨before, spelled ++ after⟩
      accept = accept (Cursor.past before spelled after) := by
  induction spelled generalizing before with
  | nil => rfl
  | cons c spelled ih =>
      have hFirst (resume : Cursor → Option β) :
          (keywordChar c.toLower).run ⟨before, c :: (spelled ++ after)⟩ resume =
            resume ⟨some c, spelled ++ after⟩ := by
        simp [keywordChar, Pattern.run]
      rw [List.map_cons, List.map_cons, Pattern.run_all_cons, List.cons_append, hFirst, ih,
        ← List.singleton_append, Cursor.past_append]
      rfl

theorem run_quote (before : Option Char) (after : List Char) (accept : Cursor → Option β) :
    (Pattern.text "\"").run ⟨before, '"' :: after⟩ accept = accept ⟨some '"', after⟩ := rfl

/-- The opening of a directive runs through keyword, gap and quote. -/
theorem run_directiveOpening (directive : Directive) (before : Option Char) (rest : List Char)
    {accept : Cursor → Option β} {result : β} (h : accept ⟨some '"', rest⟩ = some result) :
    directiveOpening.run ⟨before, directive.keyword ++ (directive.gap ++ '"' :: rest)⟩ accept =
      some result := by
  have hQuote : ¬isBlank '"' = true := by decide
  rw [directiveOpening, Pattern.run_all_cons, ← directive.keyword_spelled, run_keyword]
  refine Pattern.run_atLeastOnce_one directive.gap_some
    (fun c hc => (directive.gap_blank c hc).1) (by simpa using hQuote) ?_
  rw [← h]
  exact run_quote _ _ _

/-- No directive opens where there is no hash sign. -/
theorem run_directiveOpening_eq_none {place : Cursor} (h : ∀ c ∈ place.rest.head?, c ≠ '#')
    (accept : Cursor → Option β) : directiveOpening.run place accept = none := by
  have hSpelled : "#include".toList = '#' :: "include".toList := by decide
  rw [directiveOpening, Pattern.run_all_cons, hSpelled, List.map_cons, Pattern.run_all_cons]
  obtain ⟨before, rest⟩ := place
  cases rest with
  | nil => rfl
  | cons c rest =>
      have hc : c.toLower ≠ '#' := fun hLower => h c rfl (eq_hash_of_toLower hLower)
      simp [keywordChar, Pattern.run, hc]

/-- No directive is read where the first character that is not blank is not its mark. -/
theorem directiveAt?_eq_none (h : ∀ c ∈ (text.dropWhile isBlank).head?, c ≠ '#') :
    directiveAt? ⟨before, text⟩ = none := by
  have hOpening (accept : Cursor → Option (List Char × Cursor)) :
      directiveOpening.run (Cursor.skip ⟨before, text⟩ isBlank) accept = none := by
    refine run_directiveOpening_eq_none ?_ accept
    rwa [Cursor.skip, rest_skipFrom]
  unfold directiveAt?
  simp only [Pattern.run, hOpening, ite_self]

theorem head?_core (directive : Directive) : (directive.core after).head? = some '#' := by
  have hSpelled := directive.keyword_spelled
  cases hKeyword : directive.keyword with
  | nil =>
      rw [hKeyword] at hSpelled
      exact absurd hSpelled (by decide)
  | cons c rest =>
      have hFirst : c.toLower = '#' := by
        rw [hKeyword] at hSpelled
        exact (List.cons.inj hSpelled).1
      rw [Directive.core, hKeyword, eq_hash_of_toLower hFirst]
      rfl

/-- A directive is read behind blanks from the start of a line on. -/
theorem directiveAt?_core (directive : Directive) (hLine : before = none ∨ before = some '\n')
    (hFront : ∀ c ∈ front, isBlank c = true) :
    directiveAt? ⟨before, front ++ directive.core after⟩ =
      some (directive.path, ⟨some '"', after⟩) := by
  have hSkip : Cursor.skip ⟨before, front ++ directive.core after⟩ isBlank =
      Cursor.past before front (directive.core after) := by
    refine skipFrom_append hFront fun c hc => ?_
    rw [head?_core] at hc
    cases hc
    decide
  unfold directiveAt?
  rw [Pattern.run, if_pos hLine, hSkip]
  refine run_directiveOpening directive _ _
    (Pattern.run_atLeastOnce_one directive.path_some ?_ (by simp) ?_)
  · intro c hc
    exact decide_eq_true fun hQuote => directive.path_unquoted (hQuote ▸ hc)
  · rw [Cursor.past, run_quote]
    simp [Cursor.upTo]

/-- What is read before a directive, without its mark, is nothing or the directive itself. -/
theorem directiveAt?_before_core (directive : Directive) (hFront : '#' ∉ front) :
    directiveAt? ⟨before, front ++ directive.core after⟩ = none ∨
      directiveAt? ⟨before, front ++ directive.core after⟩ =
        some (directive.path, ⟨some '"', after⟩) := by
  by_cases hLine : before = none ∨ before = some '\n'
  · by_cases hBlank : ∀ c ∈ front, isBlank c = true
    · exact .inr (directiveAt?_core directive hLine hBlank)
    · -- the first character that is not blank stands before the mark
      refine .inl (directiveAt?_eq_none fun c hc hHash => ?_)
      have hSolid : front.dropWhile isBlank ≠ [] := fun hNil =>
        hBlank (List.dropWhile_eq_nil_iff.mp hNil)
      rw [List.dropWhile_append, if_neg (by simpa using hSolid),
        List.head?_append_of_ne_nil _ hSolid] at hc
      rw [hHash] at hc
      exact hFront (List.dropWhile_subset _ (List.mem_of_mem_head? hc))
  · left
    unfold directiveAt?
    rw [Pattern.run, if_neg hLine]

/-- The first directive found is the one with the first mark, from whatever place before it. -/
theorem findFirst_core (directive : Directive) {indent : List Char} (hFront : '#' ∉ front)
    (hLine : front.getLast?.or before = none ∨ front.getLast?.or before = some '\n')
    (hIndent : ∀ c ∈ indent, isBlank c = true) :
    Cursor.findFirst ⟨before, front ++ (indent ++ directive.core after)⟩ directiveAt? =
      some (directive.path, ⟨some '"', after⟩) := by
  have hHash : '#' ∉ indent := fun hMem => absurd (hIndent '#' hMem) (by decide)
  unfold Cursor.findFirst
  induction front generalizing before with
  | nil => exact Pattern.firstAt_of_some (directiveAt?_core directive hLine hIndent)
  | cons c front ih =>
      have hWhole : '#' ∉ c :: (front ++ indent) := by
        rw [← List.cons_append, List.mem_append, not_or]
        exact ⟨hFront, hHash⟩
      have hHere := @directiveAt?_before_core before _ after directive hWhole
      rw [List.cons_append, List.append_assoc] at hHere
      rcases hHere with hNone | hSome
      · show Cursor.firstAt directiveAt? before
          (c :: (front ++ (indent ++ directive.core after))) = _
        rw [Cursor.firstAt, hNone]
        refine ih (fun hMem => hFront (List.mem_cons_of_mem c hMem)) ?_
        rwa [← List.singleton_append, List.getLast?_append, Option.or_assoc] at hLine
      · exact Pattern.firstAt_of_some hSome

/-- At the start of a line a directive is found, and the search goes on behind its closing quote.
-/
theorem findAll_text (directive : Directive) (rest : List Char) (hFront : '#' ∉ front)
    (hLine : front.getLast?.or before = none ∨ front.getLast?.or before = some '\n') :
    Cursor.findAll ⟨before, front ++ (directive.text ++ rest)⟩ directiveAt? =
      directive.path :: Cursor.findAll ⟨some '"', directive.trailing ++ rest⟩ directiveAt? := by
  have hFound := @findFirst_core before front (directive.trailing ++ rest) directive
    directive.indent hFront hLine fun c hc => (directive.indent_blank c hc).1
  have hShorter : (directive.trailing ++ rest).length <
      (front ++ (directive.text ++ rest)).length := by
    simp only [Directive.text, Directive.core, List.length_append, List.length_cons]
    omega
  rw [← directive.text_append] at hFound
  rw [Cursor.findAll, hFound]
  simp only [hShorter, if_true]

/-- Text without a hash sign holds no directive. -/
theorem findAll_hashless (h : '#' ∉ text) : Cursor.findAll ⟨before, text⟩ directiveAt? = [] := by
  have hNone : Cursor.firstAt directiveAt? before text = none := by
    induction text generalizing before with
    | nil => exact directiveAt?_eq_none (by simp)
    | cons c text ih =>
        have hHere : directiveAt? ⟨before, c :: text⟩ = none := by
          refine directiveAt?_eq_none fun d hd hHash => h ?_
          rw [← hHash]
          exact (List.dropWhile_subset _) (List.mem_of_mem_head? hd)
        rw [Cursor.firstAt, hHere]
        exact ih fun hMem => h (List.mem_cons_of_mem c hMem)
  rw [Cursor.findAll, Cursor.findFirst, hNone]

end Search

section Rows

theorem intercalate_cons (sep : Char) (piece : List Char) (pieces : List (List Char)) :
    List.intercalate [sep] (piece :: pieces) = piece ++ pieces.flatMap (sep :: ·) := by
  induction pieces generalizing piece with
  | nil => simp
  | cons next pieces ih =>
      have hNext := ih next
      rw [List.intercalate_cons_cons, hNext]
      simp

/-- A row is a directive, or it is without a hash sign once its comment is gone. -/
theorem Row.kept_cases (row : Row) :
    (∃ line, row = .directive line) ∨ row.path? = none ∧ '#' ∉ row.kept := by
  cases row with
  | directive line => exact .inl ⟨line, rfl⟩
  | other text hPlain => exact .inr ⟨rfl, hPlain.hashless⟩
  | comment indent body hIndent _ _ _ =>
      exact .inr ⟨rfl, fun hMem => absurd (hIndent '#' hMem).1 (by decide)⟩

/-- Below some text without marks, the directives of further lines are found one after the other. -/
theorem findAll_rows (rows : List Row) (before : Option Char) {line : List Char}
    (hLine : '#' ∉ line) :
    Cursor.findAll ⟨before, line ++ rows.flatMap ('\n' :: ·.kept)⟩ directiveAt? =
      rows.filterMap Row.path? := by
  induction rows generalizing before line with
  | nil => exact findAll_hashless (by simpa using hLine)
  | cons row rows ih =>
      have hFeed : '#' ∉ line ++ ['\n'] := by simpa using hLine
      rw [List.flatMap_cons, List.cons_append, ← List.singleton_append, ← List.append_assoc]
      rcases row.kept_cases with ⟨directive, rfl⟩ | ⟨hPath, hKept⟩
      · rw [Row.kept, findAll_text directive _ hFeed (by simp),
          ih _ directive.trailing_plain.hashless]
        rfl
      · have hLonger : '#' ∉ line ++ ['\n'] ++ row.kept := by
          rw [List.mem_append, not_or]
          exact ⟨hFeed, hKept⟩
        rw [List.filterMap_cons_none hPath, ← List.append_assoc, ih before hLonger]

/-- The directives found in rows are their paths in order. -/
theorem findAll_start (rows : List Row) :
    (Cursor.start (List.intercalate ['\n'] (rows.map Row.kept))).findAll directiveAt? =
      rows.filterMap Row.path? := by
  cases rows with
  | nil => exact findAll_hashless (by simp)
  | cons row rows =>
      rw [List.map_cons, intercalate_cons, List.flatMap_map]
      rcases row.kept_cases with ⟨directive, rfl⟩ | ⟨hPath, hKept⟩
      · have hFound := @findAll_text none [] directive (rows.flatMap ('\n' :: ·.kept)) (by simp)
          (.inl rfl)
        rw [findAll_rows rows _ directive.trailing_plain.hashless] at hFound
        exact hFound
      · rw [List.filterMap_cons_none hPath]
        exact findAll_rows rows none hKept

end Rows

/-- The includes of a script are the paths of its directives, in order and with repetitions, with
forward slashes: neither lines without comments nor directives in line comments add any, and none is
lost, wherever blank lines, quotes and comments stand around it. -/
theorem includes_eq_paths (rows : List Row) :
    includes (List.intercalate ['\n'] (rows.map Row.text)) =
      (rows.filterMap Row.path?).map (replaceChar '\\' '/') := by
  have hClosed : ∀ line ∈ rows.map Row.text, BlocksClosed line := by
    intro line hLine
    obtain ⟨row, -, rfl⟩ := List.mem_map.mp hLine
    exact .outside row.unopened_text
  have hKept : (rows.map Row.text).map stripComments = rows.map Row.kept := by
    rw [List.map_map]
    exact List.map_congr_left fun row _ => row.stripComments_text
  have hTrim : ∀ path ∈ rows.filterMap Row.path?, includePath path = replaceChar '\\' '/' path := by
    intro path hPath
    obtain ⟨row, -, hRow⟩ := List.mem_filterMap.mp hPath
    cases row with
    | directive line =>
        cases hRow
        rw [includePath, line.path_trimmed]
    | comment => cases hRow
    | other => cases hRow
  rw [includes, stripComments_intercalate hClosed, hKept, findAll_start, List.map_congr_left hTrim]

theorem blank_of_mem_pair {c : Char} (h : c ∈ [' ', '\t']) : isBlank c = true ∧ c ≠ '\n' := by
  simp only [List.mem_cons, List.not_mem_nil, or_false] at h
  rcases h with rfl | rfl
  · decide
  · decide

/-- The line of a directive in mixed case, with a backslash in its path and a quote behind it. -/
def mixedCaseDirective : Directive where
  indent := ['\t']
  keyword := "#InClude".toList
  gap := [' ', '\t']
  path := "a\\b.zs".toList
  trailing := [' ', '"', 'y']
  indent_blank _ hc := blank_of_mem_pair (List.mem_cons_of_mem ' ' hc)
  keyword_spelled := by decide
  gap_some := by decide
  gap_blank _ hc := blank_of_mem_pair hc
  path_some := by decide
  path_trimmed := by decide +kernel
  path_feedless := by decide
  path_unquoted := by decide
  path_unmarked := by decide
  trailing_plain := ⟨by decide, by decide, by decide⟩

/-- A line with a quote, a blank line, a directive, and the same directive in a comment. -/
def mixedLines : List Row := [
  .other ['x', ' ', '"'] ⟨by decide, by decide, by decide⟩,
  .other [] ⟨by decide, by decide, by decide⟩,
  .directive mixedCaseDirective,
  .comment [] (' ' :: mixedCaseDirective.text) (by simp) (by decide) (by decide) (by simp)]

/-- Of mixed lines, written twice, the directive is found twice. -/
theorem includes_of_mixed_lines :
    List.intercalate ['\n'] (mixedLines.map Row.text) =
        "x \"\n\n\t#InClude \t\"a\\b.zs\" \"y\n// \t#InClude \t\"a\\b.zs\" \"y".toList ∧
      includes (List.intercalate ['\n'] ((mixedLines ++ mixedLines).map Row.text)) =
        ["a/b.zs".toList, "a/b.zs".toList] := by
  refine ⟨by decide +kernel, ?_⟩
  rw [includes_eq_paths]
  decide +kernel

end SignatureIndex.Source
