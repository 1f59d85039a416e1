import Mathlib.Data.List.Forall2
import SignatureIndex.Archive.Entry
import SignatureIndex.Proofs.Comment
import SignatureIndex.Proofs.FileTree
import SignatureIndex.Proofs.Text
import SignatureIndex.Proofs.Utf8
import SignatureIndex.Scan

/-! Line ends. A carriage return before a line feed is a blank at the end of its line: it stands in
no comment mark, goes with the comment that it lies in, and is trimmed elsewhere. So a script reads
the same from a file, where line ends are unified, and from an archive, where they are kept. -/
namespace SignatureIndex

namespace Text

/-- The text with a carriage return before each line feed. -/
def withReturns (text : List Char) : List Char :=
  text.flatMap fun c => if c = '\n' then ['\r', '\n'] else [c]

/-- The second text is the first with a carriage return before some of its line feeds. -/
inductive Returned : List Char → List Char → Prop where
  | nil : Returned [] []
  | char (c : Char) {text other : List Char} (h : Returned text other) :
      Returned (c :: text) (c :: other)
  | feed {text other : List Char} (h : Returned text other) :
      Returned ('\n' :: text) ('\r' :: '\n' :: other)

theorem withReturns_cons {c : Char} (hc : c ≠ '\n') (rest : List Char) :
    withReturns (c :: rest) = c :: withReturns rest := by
  simp [withReturns, hc]

/-- A text with carriage returns is a returned form of the text. -/
theorem returned_withReturns (text : List Char) : Returned text (withReturns text) := by
  induction text with
  | nil => exact .nil
  | cons c rest ih =>
      by_cases hc : c = '\n'
      · subst hc
        exact .feed ih
      · rw [withReturns_cons hc]
        exact .char c ih

/-- Unified line ends are those from before the returns. -/
theorem unifyNewlines_withReturns {text : List Char} (h : '\r' ∉ text) :
    unifyNewlines (withReturns text) = text := by
  induction text with
  | nil => rfl
  | cons c rest ih =>
      obtain ⟨hReturn, hRest⟩ := not_or.mp (mt List.mem_cons.mpr h)
      by_cases hc : c = '\n'
      · subst hc
        exact congrArg ('\n' :: ·) (ih hRest)
      · rw [withReturns_cons hc, unifyNewlines, ih hRest, if_neg (Ne.symm hReturn)]
        intro _ hSlip
        exact absurd hSlip.symm hReturn

/-- Well-formed bytes are decoded without replacement. -/
theorem decodeReplacing_encodeUtf8 (text : List Char) :
    decodeReplacing (encodeUtf8 text) = text := by
  rw [decodeReplacing, decodeParts_encodeUtf8, List.map_map]
  exact List.map_id text

/-- A carriage return at the end of a line is trimmed away. -/
theorem trim_append_return (line : List Char) : trim (line ++ ['\r']) = trim line := by
  have hReturn : isBlank '\r' = true := by decide
  have hEnd (cs : List Char) : dropEndWhile isBlank (cs ++ ['\r']) = dropEndWhile isBlank cs := by
    simp [dropEndWhile, hReturn]
  rw [trim, trim, List.dropWhile_append]
  split
  · next hEmpty =>
      rw [List.isEmpty_iff.mp hEmpty, List.dropWhile_cons_of_pos hReturn, List.dropWhile_nil]
  · exact hEnd _

namespace Returned

variable {text other : List Char}

theorem append (front : List Char) (h : Returned text other) :
    Returned (front ++ text) (front ++ other) := by
  induction front with
  | nil => exact h
  | cons c front ih => exact .char c ih

/-- Only a line feed gets a return, so other characters start both texts or none. -/
theorem ne_cons {c : Char} (hc : c ≠ '\r') (h : Returned text other)
    (hText : ∀ after, text ≠ c :: after) (after : List Char) : other ≠ c :: after := by
  rintro rfl
  cases h with
  | char _ _ => exact hText _ rfl
  | feed _ => exact hc rfl

theorem dropWhile_ne_feed (h : Returned text other) :
    Returned (text.dropWhile (· ≠ '\n')) (other.dropWhile (· ≠ '\n')) := by
  induction h with
  | nil => exact .nil
  | @char c text other hRest ih =>
      by_cases hc : c = '\n'
      · simpa [hc] using Returned.char '\n' hRest
      · simpa [hc] using ih
  | feed hRest _ => simpa using Returned.char '\n' hRest

/-- Each line of the second text is that of the first, possibly with a return at its end. -/
theorem splitOn (h : Returned text other) :
    List.Forall₂ (fun line line' => line' = line ∨ line' = line ++ ['\r'])
      (List.splitOn '\n' text) (List.splitOn '\n' other) := by
  induction h with
  | nil => exact .cons (.inl rfl) .nil
  | @char c text other _ ih =>
      by_cases hc : c = '\n'
      · subst hc
        rw [splitOn_cons_self, splitOn_cons_self]
        exact .cons (.inl rfl) ih
      · obtain ⟨line, lines, hText, hCons⟩ := splitOn_cons_of_ne hc text
        obtain ⟨line', lines', hOther, hCons'⟩ := splitOn_cons_of_ne hc other
        rw [hText, hOther] at ih
        obtain ⟨hLine, hLines⟩ := List.forall₂_cons.mp ih
        rw [hCons, hCons']
        refine .cons (hLine.imp (congrArg (c :: ·)) ?_) hLines
        intro hReturn
        rw [hReturn, List.cons_append]
  | @feed text other _ ih =>
      obtain ⟨line', lines', hOther, hCons'⟩ :=
        splitOn_cons_of_ne (by decide : '\r' ≠ '\n') ('\n' :: other)
      rw [splitOn_cons_self] at hOther
      cases hOther
      rw [splitOn_cons_self, hCons']
      exact .cons (.inr rfl) ih

/-- Carriage returns before line feeds change no trimmed line. -/
theorem map_trim_splitOn (h : Returned text other) :
    (List.splitOn '\n' other).map trim = (List.splitOn '\n' text).map trim := by
  have hTrimmed : List.Forall₂ (fun line line' => trim line' = trim line)
      (List.splitOn '\n' text) (List.splitOn '\n' other) := by
    refine h.splitOn.imp fun line line' hLine => ?_
    rcases hLine with rfl | rfl
    · rfl
    · exact trim_append_return line
  rw [← List.forall₂_eq_eq_eq, List.forall₂_map_left_iff, List.forall₂_map_right_iff]
  exact hTrimmed.flip

end Returned

end Text

namespace Source

open Text

variable {text other : List Char}

/-- A block comment ends at the same mark, after as many line feeds. -/
theorem blockEnd?_returned (h : Returned text other) :
    (blockEnd? text = none ∧ blockEnd? other = none) ∨
      ∃ feeds after after', blockEnd? text = some (feeds, after) ∧
        blockEnd? other = some (feeds, after') ∧ Returned after after' := by
  induction h with
  | nil => exact .inl ⟨rfl, rfl⟩
  | @char c text other hRest ih =>
      by_cases hMark : c = '*' ∧ ∃ after, text = '/' :: after
      · obtain ⟨rfl, after, rfl⟩ := hMark
        cases hRest with
        | char _ hAfter => exact .inr ⟨0, after, _, rfl, rfl, hAfter⟩
      · have hText : ∀ after, c = '*' → text = '/' :: after → False :=
          fun after hc hSlash => hMark ⟨hc, after, hSlash⟩
        have hOther : ∀ after, c = '*' → other = '/' :: after → False :=
          fun after hc => hRest.ne_cons (by decide) (fun rest => hText rest hc) after
        rw [blockEnd?.eq_3 c _ hText, blockEnd?.eq_3 c _ hOther]
        rcases ih with ⟨hNone, hNone'⟩ | ⟨feeds, after, after', hEnd, hEnd', hAfter⟩
        · exact .inl (by simp [hNone, hNone'])
        · exact .inr ⟨_, after, after', by rw [hEnd], by rw [hEnd'], hAfter⟩
  | @feed text other _ ih =>
      rw [blockEnd?.eq_3 '\n' _ (by simp), blockEnd?.eq_3 '\r' _ (by simp),
        blockEnd?.eq_3 '\n' _ (by simp)]
      rcases ih with ⟨hNone, hNone'⟩ | ⟨feeds, after, after', hEnd, hEnd', hAfter⟩
      · exact .inl (by simp [hNone, hNone'])
      · exact .inr ⟨_, after, after', by rw [hEnd], by simp [hEnd'], hAfter⟩

/-- A closed block comment leaves its line feeds. -/
theorem blankBlocks_of_closed {rest after : List Char} {feeds : Nat}
    (h : blockEnd? rest = some (feeds, after)) :
    blankBlocks ('/' :: '*' :: rest) = List.replicate feeds '\n' ++ blankBlocks after := by
  rw [blankBlocks]
  split
  · next hOther =>
      rw [h] at hOther
      cases hOther
      rfl
  · next hOther =>
      rw [h] at hOther
      cases hOther

/-- An open block comment is kept as it stands. -/
theorem blankBlocks_of_open {rest : List Char} (h : blockEnd? rest = none) :
    blankBlocks ('/' :: '*' :: rest) = '/' :: blankBlocks ('*' :: rest) := by
  rw [blankBlocks]
  split
  · next hOther =>
      rw [h] at hOther
      cases hOther
  · rfl

theorem blankBlocks_returned (h : Returned text other) :
    Returned (blankBlocks text) (blankBlocks other) := by
  fun_induction blankBlocks text generalizing other with
  | case1 =>
      cases h
      rw [blankBlocks]
      exact .nil
  | case2 rest feeds after hEnd ih =>
      cases h with
      | char _ h =>
          cases h with
          | char _ hRest =>
              rcases blockEnd?_returned hRest with ⟨hNone, -⟩ | ⟨_, _, after', hSame, hEnd', hAfter⟩
              · rw [hEnd] at hNone
                cases hNone
              · rw [hEnd] at hSame
                cases hSame
                rw [blankBlocks_of_closed hEnd']
                exact (ih hAfter).append _
  | case3 rest hEnd ih =>
      cases h with
      | char _ h =>
          cases h with
          | char _ hRest =>
              rcases blockEnd?_returned hRest with ⟨-, hNone⟩ | ⟨_, _, _, hSome, -, -⟩
              · rw [blankBlocks_of_open hNone]
                exact .char '/' (ih (.char '*' hRest))
              · rw [hEnd] at hSome
                cases hSome
  | case4 c rest hPlain ih =>
      cases h with
      | @char _ _ other hRest =>
          have hOther : ∀ after, c = '/' → other = '*' :: after → False :=
            fun after hc => hRest.ne_cons (by decide) (fun rest => hPlain rest hc) after
          rw [blankBlocks.eq_3 c _ hOther]
          exact .char c (ih hRest)
      | feed hRest =>
          rw [blankBlocks.eq_3 '\r' _ (by simp), blankBlocks.eq_3 '\n' _ (by simp)]
          exact .feed (ih hRest)

theorem dropLineComments_returned (h : Returned text other) :
    Returned (dropLineComments text) (dropLineComments other) := by
  fun_induction dropLineComments text generalizing other with
  | case1 =>
      cases h
      rw [dropLineComments]
      exact .nil
  | case2 rest ih =>
      cases h with
      | char _ h =>
          cases h with
          | char _ hRest =>
              rw [dropLineComments]
              exact ih hRest.dropWhile_ne_feed
  | case3 c rest hPlain ih =>
      cases h with
      | @char _ _ other hRest =>
          have hOther : ∀ after, c = '/' → other = '/' :: after → False :=
            fun after hc => hRest.ne_cons (by decide) (fun rest => hPlain rest hc) after
          rw [dropLineComments.eq_3 c _ hOther]
          exact .char c (ih hRest)
      | feed hRest =>
          rw [dropLineComments.eq_3 '\r' _ (by simp), dropLineComments.eq_3 '\n' _ (by simp)]
          exact .feed (ih hRest)

/-- Carriage returns stay carriage returns when comments are removed. -/
theorem stripComments_returned (h : Returned text other) :
    Returned (stripComments text) (stripComments other) :=
  dropLineComments_returned (blankBlocks_returned h)

end Source

namespace Scan

open Text

/-- Returns before line feeds change neither the lines nor their numbers. -/
theorem numberedLines_returned {script other : List Char} (h : Returned script other) :
    numberedLines other = numberedLines script := by
  have hNumber (lines : List (List Char)) :
      (lines.mapIdx fun index line => (index + 1, trim line)) =
        (lines.map trim).mapIdx fun index line => (index + 1, line) := by
    rw [List.mapIdx_eq_zipIdx_map, List.mapIdx_eq_zipIdx_map, List.zipIdx_map, List.map_map]
    rfl
  rw [numberedLines, numberedLines, hNumber, hNumber,
    (Source.stripComments_returned h).map_trim_splitOn]

/-- Files and archives agree on scripts with returns. The bytes of a script whose lines end with a
return and a line feed are read from a file as the script without returns, and from an archive as
the script with them. From every state both give the same signatures with the same lines, leave the
same state, and tell the same on the way. -/
theorem file_and_entry_read_alike (script : List Char) (h : '\r' ∉ script) :
    (∀ (env : Environment) (path : Path),
      env.readBytes path = .ok (encodeUtf8 (withReturns script)) →
        env.readScript path = .ok (String.ofList script)) ∧
    (∀ (archive : List UInt8) (header : Archive.Header),
      Archive.readEntry archive header = .ok (encodeUtf8 (withReturns script)) →
        Archive.readEntryText archive header = .ok (String.ofList (withReturns script))) ∧
    ∀ (state : State) (source : Option String),
      readScript state (withReturns script) source = readScript state script source := by
  have hDecoded := decodeReplacing_encodeUtf8 (withReturns script)
  refine ⟨fun env path hBytes => ?_, fun archive header hBytes => ?_, fun state source => ?_⟩
  · rw [Environment.readScript, hBytes, Except.map, hDecoded, unifyNewlines_withReturns h]
  · rw [Archive.readEntryText, hBytes, Except.map, hDecoded]
  · rw [readScript, readScript, numberedLines_returned (returned_withReturns script)]

/-- A declaration over three lines with a comment in it, as a file and as an archive entry. -/
theorem file_and_entry_of_broken_declaration :
    let script := "class A // a\n\x7b\n  int F(int a, /* b\n  */ int b\n  );\n\x7d".toList
    let bytes := encodeUtf8 (withReturns script)
    let env : Environment :=
      { tree := .ofEntries [(["a.zs"], .file bytes)], working := [], stands := rfl }
    let header : Archive.Header := ⟨"a", 0, 0, 0xB7055BA7, 57, 57, 0, 0, 88⟩
    let archive := [0x50, 0x4B, 3, 4] ++ List.replicate 22 0 ++ [1, 0, 0, 0, 0x61] ++ bytes
    '\r' ∉ script ∧
      env.readScript (.ofString "a.zs") = .ok (String.ofList script) ∧
      Archive.readEntryText archive header = .ok (String.ofList (withReturns script)) ∧
      (readScript .initial (withReturns script) none).state = ⟨0, none, 4⟩ ∧
      (readScript .initial (withReturns script) none).signatures.map
        (fun signature => (signature.label, signature.line)) =
          [("int F(int a, int b)", some 3)] := by
  intro script bytes env header archive
  have hScript : '\r' ∉ script := by decide +kernel
  have hFile : env.readBytes (.ofString "a.zs") = .ok bytes := by decide +kernel
  have hEntry : Archive.readEntry archive header = .ok bytes := by decide +kernel
  obtain ⟨hRead, hText, hSame⟩ := file_and_entry_read_alike script hScript
  rw [hSame]
  exact ⟨hScript, hRead env _ hFile, hText archive header hEntry, by decide +kernel,
    by decide +kernel⟩

end Scan

end SignatureIndex
