import Mathlib.Data.List.Chain
import Mathlib.Data.List.TakeWhile
import SignatureIndex.Source.Comment
import SignatureIndex.Text.Blank

/-! Comments keep lines: a script has as many line feeds without its comments as with them. A
script without comment marks is left as it is. Where no block comment is open, a line feed divides
a script into two that lose their comments independently. -/
namespace SignatureIndex.Source

/-- No two neighbouring characters are the mark that starts a comment. -/
def Unmarked (text : List Char) : Prop :=
  text.IsChain fun c d => c = '/' → d ≠ '/' ∧ d ≠ '*'

instance (text : List Char) : Decidable (Unmarked text) :=
  inferInstanceAs (Decidable (text.IsChain _))

/-- The line feeds before the end of a block comment are counted. -/
theorem blockEnd?_count {cs after : List Char} {feeds : Nat}
    (h : blockEnd? cs = some (feeds, after)) :
    feeds + after.count '\n' = cs.count '\n' := by
  fun_induction blockEnd? cs generalizing feeds after with
  | case1 => cases h
  | case2 rest =>
      cases h
      simp
  | case3 => cases h
  | case4 c rest _ feeds' after' hEnd ih =>
      cases h
      rw [List.count_cons, ← ih hEnd]
      by_cases hc : c = '\n'
      · simp [hc]
        omega
      · simp [hc]

/-- Blanking block comments keeps every line feed. -/
theorem blankBlocks_count (cs : List Char) : (blankBlocks cs).count '\n' = cs.count '\n' := by
  fun_induction blankBlocks cs with
  | case1 => rfl
  | case2 rest feeds after hEnd ih =>
      rw [List.count_append, List.count_replicate_self, ih, blockEnd?_count hEnd]
      simp
  | case3 rest hEnd ih =>
      rw [List.count_cons, ih]
      simp
  | case4 c rest _ ih => rw [List.count_cons, List.count_cons, ih]

/-- Dropping line comments keeps every line feed. -/
theorem dropLineComments_count (cs : List Char) :
    (dropLineComments cs).count '\n' = cs.count '\n' := by
  fun_induction dropLineComments cs with
  | case1 => rfl
  | case2 rest ih =>
      have hBody : (rest.takeWhile (· ≠ '\n')).count '\n' = 0 := by
        rw [List.count_eq_zero]
        intro hMem
        simpa using List.mem_takeWhile_imp hMem
      have hRest := congrArg (List.count '\n')
        (List.takeWhile_append_dropWhile (p := (· ≠ '\n')) (l := rest))
      rw [List.count_append, hBody] at hRest
      rw [ih]
      simp only [List.count_cons]
      simpa using hRest
  | case3 c rest _ ih => rw [List.count_cons, List.count_cons, ih]

/-- Comments are removed without a change in the number of lines. -/
theorem stripComments_count (cs : List Char) : (stripComments cs).count '\n' = cs.count '\n' := by
  rw [stripComments, dropLineComments_count, blankBlocks_count]

/-- Texts without marks make one if the second starts with no character of a mark. -/
theorem Unmarked.append {front back : List Char} (hFront : Unmarked front) (hBack : Unmarked back)
    (hHead : ∀ c ∈ back.head?, c ≠ '/' ∧ c ≠ '*') : Unmarked (front ++ back) :=
  List.isChain_append.mpr ⟨hFront, hBack, fun _ _ d hd _ => hHead d hd⟩

theorem Unmarked.cons {c : Char} {text : List Char} (hc : c ≠ '/') (h : Unmarked text) :
    Unmarked (c :: text) :=
  List.isChain_cons.mpr ⟨fun _ _ hSlash => absurd hSlash hc, h⟩

/-- Lines without marks make none when a character that is in no mark stands between them. -/
theorem unmarked_intercalate {sep : Char} {lines : List (List Char)} (hSep : sep ≠ '/' ∧ sep ≠ '*')
    (h : ∀ line ∈ lines, Unmarked line) : Unmarked (List.intercalate [sep] lines) := by
  induction lines with
  | nil => exact List.IsChain.nil
  | cons line rest ih =>
      have hRest := ih fun other hMem => h other (List.mem_cons_of_mem line hMem)
      have hLine := h line List.mem_cons_self
      cases rest with
      | nil => simpa using hLine
      | cons next rest =>
          have hJoined := hLine.append (hRest.cons hSep.1) (by simp [hSep])
          simpa [List.intercalate_cons_cons] using hJoined

theorem unmarked_of_not_mem {text : List Char} (h : '/' ∉ text) : Unmarked text := by
  refine List.Pairwise.isChain ?_
  rw [List.pairwise_iff_forall_sublist]
  intro c d hSublist hc
  exact absurd (hc ▸ hSublist.subset List.mem_cons_self) h

theorem blankBlocks_of_unmarked {text : List Char} (h : Unmarked text) :
    blankBlocks text = text := by
  fun_induction blankBlocks text with
  | case1 => rfl
  | case2 rest _ _ _ _ => exact absurd rfl ((List.isChain_cons_cons.mp h).1 rfl).2
  | case3 rest _ _ => exact absurd rfl ((List.isChain_cons_cons.mp h).1 rfl).2
  | case4 c rest _ ih => rw [ih h.tail]

theorem dropLineComments_of_unmarked {text : List Char} (h : Unmarked text) :
    dropLineComments text = text := by
  fun_induction dropLineComments text with
  | case1 => rfl
  | case2 rest _ => exact absurd rfl ((List.isChain_cons_cons.mp h).1 rfl).1
  | case3 c rest _ ih => rw [ih h.tail]

/-- A text without comment marks is left alone. -/
theorem stripComments_of_unmarked {text : List Char} (h : Unmarked text) :
    stripComments text = text := by
  rw [stripComments, blankBlocks_of_unmarked h, dropLineComments_of_unmarked h]

/-- Every block comment that a text opens is closed in it: after the last closed comment no mark
that opens one is left. -/
inductive BlocksClosed : List Char → Prop where
  | outside {text : List Char} (hText : ¬['/', '*'] <:+: text) : BlocksClosed text
  | block {front body rest : List Char} (hFront : ¬['/', '*'] <:+: front)
      (hBody : ¬['*', '/'] <:+: body) (hRest : BlocksClosed rest) :
      BlocksClosed (front ++ '/' :: '*' :: (body ++ '*' :: '/' :: rest))

/-- A mark that is not in a text does not stand at its start either, and is not in its tail. -/
theorem not_isInfix_cons {c d e : Char} {text : List Char} (h : ¬[c, d] <:+: e :: text) :
    (e = c → ∀ rest, text ≠ d :: rest) ∧ ¬[c, d] <:+: text := by
  constructor
  · rintro rfl rest rfl
    exact h ⟨[], rest, rfl⟩
  · intro hTail
    exact h (hTail.trans (List.suffix_cons e text).isInfix)

/-- The converse: a mark that neither starts a text nor stands in its tail is not in it. -/
theorem not_isInfix_of_cons {c d e : Char} {text : List Char}
    (hStart : ∀ rest, e = c → text = d :: rest → False) (hTail : ¬[c, d] <:+: text) :
    ¬[c, d] <:+: e :: text := by
  rw [List.infix_cons_iff]
  rintro (hPrefix | hInfix)
  · obtain ⟨hSame, rest, hRest⟩ := List.cons_prefix_cons.mp hPrefix
    exact hStart rest hSame.symm hRest.symm
  · exact hTail hInfix

theorem append_ne_cons {front tail : List Char} {c : Char} (hFront : ∀ rest, front ≠ c :: rest)
    (hTail : ∀ rest, tail ≠ c :: rest) (rest : List Char) : front ++ tail ≠ c :: rest := by
  cases front with
  | nil => exact hTail rest
  | cons d front =>
      intro hSame
      obtain ⟨rfl, -⟩ := List.cons.inj hSame
      exact hFront front rfl

section Apart

variable {c d e : Char} {front back : List Char}

theorem not_isInfix_of_not_mem (h : d ∉ back) : ¬[c, d] <:+: back :=
  fun hMark => h (hMark.subset (by simp))

theorem not_isInfix_append_of_not_mem (hFront : c ∉ front) (hBack : ¬[c, d] <:+: back) :
    ¬[c, d] <:+: front ++ back := by
  induction front with
  | nil => exact hBack
  | cons e front ih =>
      rw [List.mem_cons, not_or] at hFront
      exact not_isInfix_of_cons (fun _ he => absurd he.symm hFront.1) (ih hFront.2)

/-- A character that is not in a mark keeps the texts around it apart. -/
theorem not_isInfix_append_cons (hFirst : e ≠ c) (hLast : e ≠ d) (hFront : ¬[c, d] <:+: front)
    (hBack : ¬[c, d] <:+: back) : ¬[c, d] <:+: front ++ e :: back := by
  induction front with
  | nil => exact not_isInfix_of_cons (fun _ he => absurd he hFirst) hBack
  | cons x front ih =>
      obtain ⟨hStart, hTail⟩ := not_isInfix_cons hFront
      refine not_isInfix_of_cons (fun rest hx => ?_) (ih hTail)
      exact append_ne_cons (hStart hx) (fun _ hSame => hLast (List.cons.inj hSame).1) rest

end Apart

/-- The end of a block comment is the first closing mark. -/
theorem blockEnd?_append {body : List Char} (hBody : ¬['*', '/'] <:+: body) (rest : List Char) :
    blockEnd? (body ++ '*' :: '/' :: rest) = some (body.count '\n', rest) := by
  induction body with
  | nil => rfl
  | cons c body ih =>
      obtain ⟨hStart, hTail⟩ := not_isInfix_cons hBody
      have hOpen : ∀ after, c = '*' → body ++ '*' :: '/' :: rest = '/' :: after → False :=
        fun after hc => append_ne_cons (hStart hc) (by simp) after
      rw [List.cons_append, blockEnd?.eq_3 c _ hOpen, ih hTail]
      by_cases hFeed : c = '\n'
      · simp [hFeed]
      · simp [hFeed]

/-- Text without the mark that opens a block comment is kept as it is. -/
theorem blankBlocks_append {front tail : List Char} (hFront : ¬['/', '*'] <:+: front)
    (hSeam : ∀ c ∈ tail.head?, c ≠ '*') :
    blankBlocks (front ++ tail) = front ++ blankBlocks tail := by
  have hTailStart : ∀ rest, tail ≠ '*' :: rest := by
    rintro rest rfl
    exact hSeam '*' rfl rfl
  induction front with
  | nil => rfl
  | cons c front ih =>
      obtain ⟨hStart, hTail⟩ := not_isInfix_cons hFront
      have hPlain : ∀ after, c = '/' → front ++ tail = '*' :: after → False :=
        fun after hc => append_ne_cons (hStart hc) hTailStart after
      rw [List.cons_append, blankBlocks.eq_3 c _ hPlain, ih hTail, List.cons_append]

/-- A block comment leaves just the line feeds inside it. -/
theorem blankBlocks_block {body : List Char} (hBody : ¬['*', '/'] <:+: body) (rest : List Char) :
    blankBlocks ('/' :: '*' :: (body ++ '*' :: '/' :: rest)) =
      List.replicate (body.count '\n') '\n' ++ blankBlocks rest := by
  have hEnd := blockEnd?_append hBody rest
  rw [blankBlocks]
  split
  · next feeds after hOther =>
      rw [hEnd] at hOther
      cases hOther
      rfl
  · next hOther =>
      rw [hEnd] at hOther
      cases hOther

/-- A line feed after closed comments divides a text: what follows it is read by itself. -/
theorem blankBlocks_append_feed {text : List Char} (h : BlocksClosed text) (more : List Char) :
    blankBlocks (text ++ '\n' :: more) = blankBlocks text ++ '\n' :: blankBlocks more := by
  have hFeed : blankBlocks ('\n' :: more) = '\n' :: blankBlocks more :=
    blankBlocks.eq_3 '\n' more (by simp)
  induction h with
  | @outside text hText =>
      have hAlone : blankBlocks (text ++ []) = text ++ blankBlocks [] :=
        blankBlocks_append hText (by simp)
      rw [List.append_nil, blankBlocks, List.append_nil] at hAlone
      rw [blankBlocks_append hText (by simp), hFeed, hAlone]
  | @block front body rest hFront hBody hRest ih =>
      rw [List.append_assoc, blankBlocks_append hFront (by simp),
        blankBlocks_append hFront (by simp)]
      simp only [List.cons_append, List.append_assoc]
      rw [blankBlocks_block hBody, blankBlocks_block hBody, ih, List.append_assoc]

/-- A line comment ends at its line: lines are stripped one by one. -/
theorem dropLineComments_append_feed (text more : List Char) :
    dropLineComments (text ++ '\n' :: more) =
      dropLineComments text ++ '\n' :: dropLineComments more := by
  fun_induction dropLineComments text with
  | case1 =>
      rw [List.nil_append, List.nil_append]
      exact dropLineComments.eq_3 '\n' more (by simp)
  | case2 rest ih =>
      have hDrop : (rest ++ '\n' :: more).dropWhile (fun c => decide (c ≠ '\n')) =
          rest.dropWhile (fun c => decide (c ≠ '\n')) ++ '\n' :: more := by
        rw [List.dropWhile_append]
        split
        · next hEmpty =>
            rw [List.isEmpty_iff.mp hEmpty, List.nil_append]
            exact List.dropWhile_cons_of_neg (by simp)
        · rfl
      rw [List.cons_append, List.cons_append, dropLineComments, hDrop, ih]
  | case3 c rest hPlain ih =>
      have hStill : ∀ after, c = '/' → rest ++ '\n' :: more = '/' :: after → False :=
        fun after hc => append_ne_cons (fun other => hPlain other hc) (by simp) after
      rw [List.cons_append, dropLineComments.eq_3 c _ hStill, ih, List.cons_append]

/-- Texts on lines of their own lose their comments one by one if no comment goes from the first
into the second. -/
theorem stripComments_append_feed {text : List Char} (h : BlocksClosed text) (more : List Char) :
    stripComments (text ++ '\n' :: more) = stripComments text ++ '\n' :: stripComments more := by
  rw [stripComments, blankBlocks_append_feed h, dropLineComments_append_feed]
  rfl

end SignatureIndex.Source
