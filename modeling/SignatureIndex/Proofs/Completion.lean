import SignatureIndex.Document
import SignatureIndex.Proofs.Pattern
import SignatureIndex.Proofs.Table
import SignatureIndex.Proofs.Text
import SignatureIndex.Scan

/-! Completions. Folding works character by character, so the folded start of a name is a start of
the folded name, whatever their lengths are: each start of a name that is found in a table completes
to the name, and a longer start leaves some of the completions of a shorter one. At the cursor the
start is the whole word that ends there; where no word ends nothing is offered. -/
namespace SignatureIndex

open Text

namespace Table

variable {table : Table} {start : String}

/-- What is offered are the entries whose key starts with the folded start. -/
theorem mem_completions_iff {item : Completion} :
    item ∈ table.completions start ↔ ∃ entry ∈ table.entries,
      fold start.toList <+: entry.1.toList ∧ entry.2.completion = item := by
  unfold completions
  simp only [List.mem_map, List.mem_filter, List.isPrefixOf_iff_prefix, and_assoc]

/-- Only the folded form of a start matters. -/
theorem completions_eq_of_keyOf {start' : String}
    (h : Signature.keyOf start = Signature.keyOf start') :
    table.completions start = table.completions start' := by
  have hFolded : fold start.toList = fold start'.toList := String.ofList_injective h
  unfold completions
  rw [hFolded]

/-- Every start of a name that is found completes to the name. -/
theorem completion_mem_of_lookup? {rest : String} {signature : Signature}
    (h : table.lookup? (start ++ rest) = some signature) :
    signature.completion ∈ table.completions start := by
  have hEntry : (Signature.keyOf (start ++ rest), signature) ∈ table.entries :=
    Entries.mem_of_get? h
  refine mem_completions_iff.mpr ⟨_, hEntry, ?_, rfl⟩
  rw [Signature.keyOf, foldString, String.toList_ofList, String.toList_append, fold_append]
  exact List.prefix_append _ _

/-- A longer start leaves out completions and keeps the order of the others. -/
theorem completions_append_sublist (table : Table) (start more : String) :
    List.Sublist (table.completions (start ++ more)) (table.completions start) := by
  refine List.Sublist.map _ (List.monotone_filter_right table.entries fun entry hLonger => ?_)
  rw [List.isPrefixOf_iff_prefix, String.toList_append, fold_append] at hLonger
  rw [List.isPrefixOf_iff_prefix]
  exact (List.prefix_append _ _).trans hLonger

end Table

namespace Document

/-- The text ends in this word, which is not empty and which no character before it makes longer. -/
def EndsInWord (text word : List Char) : Prop :=
  ∃ front, text = front ++ word ∧ word ≠ [] ∧ (∀ c ∈ word, isWordChar c = true) ∧
    ∀ c ∈ front.getLast?, ¬isWordChar c = true

section Word

variable {before : Option Char} {text front word : List Char}

/-- The word that is looked for at a place: it starts there and reaches to the end of the text. -/
def wordAt? (place : Cursor) : Option (List Char) :=
  (Pattern.both (.wordEdge isWordChar) (.many (.one isWordChar))).run place fun stop =>
    Pattern.textEnd.run stop fun _ => some (place.upTo stop)

theorem wordAt?_of_edge (hEdge : isBoundary isWordChar before word.head? = true)
    (hWord : ∀ c ∈ word, isWordChar c = true) : wordAt? ⟨before, word⟩ = some word := by
  have hMany : (Pattern.many (.one isWordChar)).run ⟨before, word ++ []⟩ (fun stop =>
      Pattern.textEnd.run stop fun _ => some (Cursor.upTo ⟨before, word⟩ stop)) = some word := by
    refine Pattern.run_many_one hWord (by simp) ?_
    simp [Cursor.past, Pattern.run, Cursor.upTo]
  rw [List.append_nil] at hMany
  simp only [wordAt?, Pattern.run, hEdge, if_true]
  exact hMany

theorem wordAt?_of_not_edge (hEdge : ¬isBoundary isWordChar before text.head? = true) :
    wordAt? ⟨before, text⟩ = none := by
  simp only [wordAt?, Pattern.run, hEdge]
  rfl

/-- A character that belongs to no word separates the places before it from the end. -/
theorem wordAt?_of_mem (hFeed : '\n' ∉ text) {c : Char} (hc : c ∈ text)
    (hOther : ¬isWordChar c = true) : wordAt? ⟨before, text⟩ = none := by
  cases hFound : wordAt? ⟨before, text⟩ with
  | none => rfl
  | some word =>
      obtain ⟨taken, after, rfl, hTaken, hEnd⟩ := Pattern.run_sound _ before text _ hFound
      obtain ⟨edge, letters, rfl, ⟨rfl, -⟩, hLetters⟩ := hTaken
      have hAll := Pattern.matches_many_one.mp hLetters
      have hAfter : after = [] := by
        by_contra hSome
        simp only [Cursor.past, Pattern.run, hSome, false_or] at hEnd
        split at hEnd
        · next hLast => exact hFeed (by simp [hLast])
        · cases hEnd
      rw [hAfter] at hc
      exact absurd (hAll c (by simpa using hc)) hOther

/-- The leftmost place from which words reach the end is where the last word starts. -/
theorem firstAt_wordAt? (hFeed : '\n' ∉ front ++ word) (hSome : word ≠ [])
    (hWord : ∀ c ∈ word, isWordChar c = true)
    (hFront : ∀ c ∈ front.getLast?.or before, ¬isWordChar c = true) :
    Cursor.firstAt wordAt? before (front ++ word) = some word := by
  induction front generalizing before with
  | nil =>
      apply Pattern.firstAt_of_some
      refine wordAt?_of_edge ?_ hWord
      obtain ⟨c, rest, rfl⟩ := List.exists_cons_of_ne_nil hSome
      cases before with
      | none => simp [isBoundary, hWord c List.mem_cons_self]
      | some b => simp [isBoundary, hWord c List.mem_cons_self, hFront b rfl]
  | cons d front ih =>
      obtain ⟨last, hLast⟩ : ∃ last, (d :: front).getLast? = some last :=
        Option.ne_none_iff_exists'.mp (by simp)
      have hOther : ¬isWordChar last = true := hFront last (by rw [hLast]; rfl)
      have hMem : last ∈ d :: front ++ word :=
        List.mem_append_left word (List.mem_of_mem_getLast? hLast)
      rw [List.cons_append] at hFeed hMem ⊢
      rw [Cursor.firstAt, wordAt?_of_mem hFeed hMem hOther]
      refine ih (fun hMem => hFeed (List.mem_cons_of_mem d hMem)) ?_
      rwa [← List.singleton_append, List.getLast?_append, Option.or_assoc] at hFront

theorem firstAt_wordAt?_eq_none (hFeed : '\n' ∉ text)
    (hText : ∀ c ∈ text.getLast?.or before, ¬isWordChar c = true) :
    Cursor.firstAt wordAt? before text = none := by
  induction text generalizing before with
  | nil =>
      refine wordAt?_of_not_edge ?_
      cases before with
      | none => simp [isBoundary]
      | some b => simp [isBoundary, hText b rfl]
  | cons d text ih =>
      obtain ⟨last, hLast⟩ : ∃ last, (d :: text).getLast? = some last :=
        Option.ne_none_iff_exists'.mp (by simp)
      have hOther : ¬isWordChar last = true := hText last (by rw [hLast]; rfl)
      rw [Cursor.firstAt, wordAt?_of_mem hFeed (List.mem_of_mem_getLast? hLast) hOther]
      refine ih (fun hMem => hFeed (List.mem_cons_of_mem d hMem)) ?_
      rwa [← List.singleton_append, List.getLast?_append, Option.or_assoc] at hText

/-- A text whose last character is in a word ends in a word. -/
theorem exists_endsInWord {c : Char} (hLast : c ∈ text.getLast?) (hc : isWordChar c = true) :
    ∃ word, EndsInWord text word := by
  refine ⟨text.rtakeWhile isWordChar, text.rdropWhile isWordChar, ?_, ?_, ?_, ?_⟩
  · exact (List.rdropWhile_append_rtakeWhile).symm
  · obtain ⟨hSome, rfl⟩ := List.mem_getLast?_eq_getLast hLast
    exact fun hNone => List.rtakeWhile_eq_nil_iff.mp hNone hSome hc
  · exact fun d hd => List.mem_rtakeWhile_imp hd
  · intro d hd
    obtain ⟨hSome, rfl⟩ := List.mem_getLast?_eq_getLast hd
    exact List.rdropWhile_last_not isWordChar text hSome

/-- The word before a cursor is the one that the text ends in. -/
theorem wordPrefix?_of_endsInWord (hFeed : '\n' ∉ text) (h : EndsInWord text word) :
    wordPrefix? text = some word := by
  obtain ⟨front, rfl, hSome, hWord, hFront⟩ := h
  refine @firstAt_wordAt? none front word hFeed hSome hWord ?_
  rwa [Option.or_none]

/-- Where a text ends in no word, none is found. -/
theorem wordPrefix?_eq_none (hFeed : '\n' ∉ text) (h : ∀ word, ¬EndsInWord text word) :
    wordPrefix? text = none := by
  refine @firstAt_wordAt?_eq_none none text hFeed fun c hc hWord => ?_
  rw [Option.or_none] at hc
  obtain ⟨word, hEnds⟩ := exists_endsInWord hc hWord
  exact h word hEnds

end Word

/-- The text before the cursor stands on one line. -/
theorem feed_not_mem_textBeforeCursor (document : Document) :
    '\n' ∉ document.textBeforeCursor := by
  have hSlice (line : List Char) (stop : Int) (hLine : '\n' ∉ line) :
      '\n' ∉ Source.sliceTo line stop := by
    unfold Source.sliceTo
    split
    · exact fun hMem => hLine (List.mem_of_mem_take hMem)
    · exact fun hMem => hLine (List.mem_of_mem_take hMem)
  unfold textBeforeCursor
  simp only
  split
  · simp
  · split
    · simp
    · next line hLine =>
        have hFree := not_mem_of_mem_splitOn (List.mem_of_getElem? hLine)
        split
        · exact hFree
        · exact hSlice line _ hFree

end Document

/-- Completion agrees with lookup. In every table the completions of a start are the entries whose
key goes on from the folded start; every start of a name that is found offers what is found; a
longer start offers some of the same, in the same order, and spelling does not matter. In a document
of the language served, the completions are those of the word that ends at the cursor, and without
such a word, or in another language, there are none. -/
theorem Document.completions_agree_with_lookup (table : Table) :
    (∀ start item, item ∈ table.completions start ↔ ∃ entry ∈ table.entries,
      fold start.toList <+: entry.1.toList ∧ entry.2.completion = item) ∧
    (∀ start rest signature, table.lookup? (start ++ rest) = some signature →
      signature.completion ∈ table.completions start) ∧
    (∀ start more,
      List.Sublist (table.completions (start ++ more)) (table.completions start)) ∧
    (∀ start start', Signature.keyOf start = Signature.keyOf start' →
      table.completions start = table.completions start') ∧
    ∀ (document : Document) (language : String),
      (∀ word, document.language = some language → EndsInWord document.textBeforeCursor word →
        (document.completions table language).1 = table.completions (String.ofList word)) ∧
      ((document.language ≠ some language ∨
          ∀ word, ¬EndsInWord document.textBeforeCursor word) →
        (document.completions table language).1 = []) := by
  refine ⟨fun start item => Table.mem_completions_iff,
    fun start rest signature h => Table.completion_mem_of_lookup? h,
    fun start more => table.completions_append_sublist start more,
    fun start start' h => Table.completions_eq_of_keyOf h, ?_⟩
  intro document language
  have hFeed := document.feed_not_mem_textBeforeCursor
  refine ⟨?_, ?_⟩
  · intro word hLanguage hWord
    rw [completions, if_neg (not_not.mpr hLanguage), wordPrefix?_of_endsInWord hFeed hWord]
  · intro hOther
    unfold completions
    split
    · rfl
    · next hLanguage =>
        have hNone := hOther.resolve_left hLanguage
        rw [wordPrefix?_eq_none hFeed hNone]

/-- A name that is found in a spelling with a letter that folds to two letters, and a word in
capitals at the cursor that ends between the two. -/
theorem Document.completions_inside_folded_letter :
    let script := "class A\n\x7b\n  void Masse(int a);\n  void Maat();\n  void Fire();\n\x7d"
    let table := (Scan.intoTable .empty script none).1
    let document : Document := ⟨"x = MAS", 0, none, some "zscript", none⟩
    ∃ signature, table.lookup? "MAße" = some signature ∧
      EndsInWord document.textBeforeCursor "MAS".toList ∧
      signature.completion ∈ table.completions "MAß" ∧
      (document.completions table "zscript").1 = table.completions "mas" ∧
      (table.completions "mas").map (·.name) = ["Masse"] ∧
      (table.completions "ma").map (·.name) = ["Masse", "Maat"] := by
  intro script table document
  obtain ⟨-, hFound, -, hSpelling, hCursor⟩ := completions_agree_with_lookup table
  obtain ⟨signature, hLookup⟩ : ∃ signature, table.lookup? "MAße" = some signature :=
    Option.isSome_iff_exists.mp (by decide +kernel)
  have hBlank : ¬isWordChar ' ' = true := by decide
  have hEnds : EndsInWord document.textBeforeCursor "MAS".toList :=
    ⟨['x', ' ', '=', ' '], by decide +kernel, by decide, List.all_eq_true.mp (by decide +kernel),
      by simpa using hBlank⟩
  have hCompletions := (hCursor document "zscript").1 "MAS".toList rfl hEnds
  rw [String.ofList_toList, hSpelling "MAS" "mas" (by decide +kernel)] at hCompletions
  exact ⟨signature, hLookup, hEnds, hFound "MAß" "e" signature hLookup, hCompletions,
    by decide +kernel, by decide +kernel⟩

end SignatureIndex
