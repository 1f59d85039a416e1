import Mathlib.Data.List.Basic
import SignatureIndex.Declaration.Leftmost
import SignatureIndex.Proofs.Pattern
import SignatureIndex.Proofs.Text

/-! The grammar of declarations. The parts of a declaration are named, and a declaration is read at
a place exactly if the text from there is made of such parts. A qualifier is a keyword or a note
with quoted arguments, and two of them at one place are the same. A declaration that starts with a
type which is no qualifier has its parts in one way only. -/
namespace SignatureIndex.Declaration

open Text

/-- At least one word character and nothing else. -/
def IsWord (text : List Char) : Prop :=
  text ≠ [] ∧ ∀ c ∈ text, isWordChar c = true

/-- Only ASCII blanks. -/
def AllBlank (text : List Char) : Prop :=
  ∀ c ∈ text, isAsciiBlank c = true

instance (text : List Char) : Decidable (IsWord text) :=
  @instDecidableAnd _ _ _ (List.decidableBAll _ text)

instance (text : List Char) : Decidable (AllBlank text) :=
  List.decidableBAll _ text

theorem ne_of_mem_word {text : List Char} (h : IsWord text) {c mark : Char} (hc : c ∈ text)
    (hMark : isWordChar mark = false) : c ≠ mark := by
  rintro rfl
  rw [h.2 c hc] at hMark
  cases hMark

theorem ne_of_mem_blanks {text : List Char} (h : AllBlank text) {c mark : Char} (hc : c ∈ text)
    (hMark : isAsciiBlank mark = false) : c ≠ mark := by
  rintro rfl
  rw [h c hc] at hMark
  cases hMark

/-- The texts that make up a declaration, and what follows it. -/
structure Parts where
  qualifiers : List Char
  returnType : List Char
  gap : List Char
  name : List Char
  space : List Char
  params : List Char
  ending : List Char
  terminator : Char
  after : List Char

namespace Parts

/-- The text behind the name. -/
def call (parts : Parts) : List Char :=
  parts.space ++ '(' :: (parts.params ++ ')' :: (parts.ending ++ parts.terminator :: parts.after))

/-- The text behind the return type. -/
def rest (parts : Parts) : List Char :=
  parts.gap ++ (parts.name ++ parts.call)

def text (parts : Parts) : List Char :=
  parts.qualifiers ++ (parts.returnType ++ parts.rest)

/-- Each part is what the grammar asks for. -/
structure Valid (before : Option Char) (parts : Parts) : Prop where
  qualifiers : qualifierRun.Matches before parts.qualifiers (parts.returnType ++ parts.rest)
  returnType : returnTypeText.Matches (parts.qualifiers.getLast?.or before) parts.returnType
    parts.rest
  gap : parts.gap ≠ [] ∧ AllBlank parts.gap
  name : IsWord parts.name
  space : AllBlank parts.space
  params : ')' ∉ parts.params
  ending : ∃ first word last, parts.ending = first ++ (word ++ last) ∧ AllBlank first ∧
    (word = "const".toList ∨ word = []) ∧ AllBlank last
  terminator : isTerminator parts.terminator = true

def declaration (parts : Parts) : Declaration where
  qualifiers := qualifierTokens parts.qualifiers
  returnType := String.ofList parts.returnType
  name := String.ofList parts.name
  params := String.ofList (trim parts.params)
  terminator := parts.terminator

end Parts

/-- A qualifier with the blanks behind it, at the start of a word. -/
def qualifierItem : Pattern := .all [.wordEdge isWordChar, qualifier, blanks₁]

/-- Blanks match ASCII blanks of any number. -/
theorem matches_blanks {before : Option Char} {taken after : List Char} :
    blanks.Matches before taken after ↔ AllBlank taken :=
  Pattern.matches_many_one

theorem matches_opening {before : Option Char} {taken after : List Char} :
    opening.Matches before taken after ↔ ∃ space, taken = space ++ ['('] ∧ AllBlank space := by
  constructor
  · rintro ⟨space, back, rfl, hSpace, hBack⟩
    rw [Pattern.matches_text.mp hBack]
    exact ⟨space, rfl, matches_blanks.mp hSpace⟩
  · rintro ⟨space, rfl, hSpace⟩
    exact ⟨space, ['('], rfl, matches_blanks.mpr hSpace, Pattern.matches_text.mpr rfl⟩

theorem matches_body {before : Option Char} {taken after : List Char} :
    body.Matches before taken after ↔ ')' ∉ taken := by
  unfold body
  rw [Pattern.matches_many_one]
  constructor
  · intro h hMem
    simpa using h ')' hMem
  · intro h c hc
    simpa using fun hSame : c = ')' => h (hSame ▸ hc)

/-- The closing matches a parenthesis, blanks, perhaps `const`, and blanks. -/
theorem matches_closing {before : Option Char} {taken after : List Char} :
    closing.Matches before taken after ↔ ∃ first word last,
      taken = ')' :: (first ++ (word ++ last)) ∧ AllBlank first ∧
        (word = "const".toList ∨ word = []) ∧ AllBlank last := by
  simp only [closing, Pattern.matches_all_cons, Pattern.matches_text, matches_blanks,
    Pattern.matches_optional]
  constructor
  · rintro ⟨_, _, rfl, rfl, first, _, rfl, hFirst, word, _, rfl, hWord, last, _, rfl, hLast, rfl⟩
    exact ⟨first, word, last, by simp, hFirst, hWord, hLast⟩
  · rintro ⟨first, word, last, rfl, hFirst, hWord, hLast⟩
    exact ⟨[')'], _, rfl, rfl, first, _, rfl, hFirst, word, _, rfl, hWord, last, [], by simp,
      hLast, rfl⟩

/-- Every qualifier in a run takes some text. -/
theorem not_matches_qualifierItem_nil (before : Option Char) (after : List Char) :
    ¬ qualifierItem.Matches before [] after := by
  intro h
  simp only [qualifierItem, Pattern.matches_all_cons] at h
  obtain ⟨_, _, hFirst, -, _, _, rfl, -, _, _, rfl, hBlanks, -⟩ := h
  obtain ⟨-, hNone⟩ := List.append_eq_nil_iff.mp hFirst.symm
  obtain ⟨-, hNone⟩ := List.append_eq_nil_iff.mp hNone
  exact (Pattern.matches_atLeastOnce_one.mp hBlanks).1 (List.append_eq_nil_iff.mp hNone).1

/-- From the return type on, a declaration is read where valid parts stand. -/
theorem readTyped?_complete {before : Option Char} {parts : Parts} (h : parts.Valid before)
    (place : Cursor) :
    (readTyped? place (Cursor.past before parts.qualifiers
      (parts.returnType ++ parts.rest))).isSome := by
  obtain ⟨first, word, last, hEnding, hFirst, hWord, hLast⟩ := h.ending
  refine Pattern.run_complete _ _ _ _ _ h.returnType ?_
  refine Pattern.run_complete _ _ _ _ _ (Pattern.matches_atLeastOnce_one.mpr h.gap) ?_
  refine Pattern.run_complete _ _ _ _ _ (Pattern.matches_atLeastOnce_one.mpr h.name) ?_
  have hCall : parts.call = (parts.space ++ ['(']) ++ (parts.params ++
      ((')' :: (first ++ (word ++ last))) ++ parts.terminator :: parts.after)) := by
    simp [Parts.call, hEnding]
  rw [hCall]
  refine Pattern.run_complete _ _ _ _ _ (matches_opening.mpr ⟨_, rfl, h.space⟩) ?_
  refine Pattern.run_complete _ _ _ _ _ (matches_body.mpr h.params) ?_
  refine Pattern.run_complete _ _ _ _ _
    (matches_closing.mpr ⟨first, word, last, rfl, hFirst, hWord, hLast⟩) ?_
  simp [Cursor.past, h.terminator]

/-- Where valid parts stand, a declaration is read. -/
theorem readAt?_complete {before : Option Char} {parts : Parts} (h : parts.Valid before) :
    (readAt? ⟨before, parts.text⟩).isSome :=
  Pattern.run_complete _ _ _ _ _ h.qualifiers (readTyped?_complete h _)

/-- What is read at a place is made of valid parts, and as many qualifiers are taken as possible:
where the return type starts, no declaration with a qualifier starts. -/
theorem readAt?_greedy {before : Option Char} {line : List Char} {declaration : Declaration}
    (h : readAt? ⟨before, line⟩ = some declaration) :
    ∃ parts : Parts, line = parts.text ∧ parts.Valid before ∧ declaration = parts.declaration ∧
      ∀ other : Parts, other.Valid (parts.qualifiers.getLast?.or before) →
        other.text = parts.returnType ++ parts.rest → other.qualifiers = [] := by
  obtain ⟨qualifiers, behind, rfl, hQualifiers, h, hStop⟩ :=
    Pattern.run_many_greedy not_matches_qualifierItem_nil h
  change qualifierRun.Matches before qualifiers behind at hQualifiers
  have hGreedy (other : Parts) (hOther : other.Valid (qualifiers.getLast?.or before))
      (hText : other.text = behind) : other.qualifiers = [] := by
    by_contra hMore
    have hSome := readTyped?_complete hOther ⟨before, qualifiers ++ behind⟩
    rw [hStop other.qualifiers _ hText.symm hMore hOther.qualifiers] at hSome
    cases hSome
  obtain ⟨returnType, _, rfl, hType, h⟩ := Pattern.run_sound _ _ _ _ h
  obtain ⟨gap, _, rfl, hGap, h⟩ := Pattern.run_sound _ _ _ _ h
  obtain ⟨name, _, rfl, hName, h⟩ := Pattern.run_sound _ _ _ _ h
  obtain ⟨_, _, rfl, hOpening, h⟩ := Pattern.run_sound _ _ _ _ h
  obtain ⟨params, _, rfl, hParams, h⟩ := Pattern.run_sound _ _ _ _ h
  obtain ⟨_, after, rfl, hClosing, h⟩ := Pattern.run_sound _ _ _ _ h
  obtain ⟨space, rfl, hSpace⟩ := matches_opening.mp hOpening
  obtain ⟨first, word, last, rfl, hFirst, hWord, hLast⟩ := matches_closing.mp hClosing
  cases after with
  | nil => cases h
  | cons c after =>
      change (if isTerminator c = true then some _ else none) = some declaration at h
      split at h
      · next hTerminator =>
          cases h
          refine ⟨⟨qualifiers, returnType, gap, name, space, params, first ++ (word ++ last), c,
            after⟩, ?_, ⟨?_, ?_, Pattern.matches_atLeastOnce_one.mp hGap,
            Pattern.matches_atLeastOnce_one.mp hName, hSpace, matches_body.mp hParams,
            ⟨first, word, last, rfl, hFirst, hWord, hLast⟩, hTerminator⟩, ?_, ?_⟩
          · simp [Parts.text, Parts.rest, Parts.call]
          · simpa [Parts.rest, Parts.call] using hQualifiers
          · simpa [Parts.rest, Parts.call] using hType
          · simp [Parts.declaration, Cursor.upTo, Cursor.past]
          · simpa [Parts.rest, Parts.call] using hGreedy
      · cases h

/-- Whatever is read at a place is written there by valid parts. -/
theorem readAt?_sound {before : Option Char} {line : List Char} {declaration : Declaration}
    (h : readAt? ⟨before, line⟩ = some declaration) :
    ∃ parts : Parts, line = parts.text ∧ parts.Valid before ∧ declaration = parts.declaration := by
  obtain ⟨parts, hLine, hValid, hParts, -⟩ := readAt?_greedy h
  exact ⟨parts, hLine, hValid, hParts⟩

/-- A declaration in a line is made of valid parts that stand somewhere in it. -/
theorem read?_sound {line : List Char} {declaration : Declaration}
    (h : read? line = some declaration) :
    ∃ (before : Option Char) (front : List Char) (parts : Parts),
      line = front ++ parts.text ∧ parts.Valid before ∧ declaration = parts.declaration := by
  rw [read?_eq_findFirst] at h
  obtain ⟨front, back, rfl, hPlace, -⟩ := Pattern.exists_of_firstAt h
  obtain ⟨parts, rfl, hValid, hParts⟩ := readAt?_sound hPlace
  exact ⟨_, front, parts, rfl, hValid, hParts⟩

section Qualifiers

/-- Blanks, possibly none. -/
structure Space where
  text : List Char
  blank : AllBlank text

/-- A text that can stand in double quotes. -/
structure Quotable where
  text : List Char
  free : '"' ∉ text

/-- A text in double quotes, and what follows it. -/
def Quotable.before (quotable : Quotable) (after : List Char) : List Char :=
  '"' :: (quotable.text ++ '"' :: after)

/-- The arguments of a qualifier: one quoted text, or two. -/
def noteText (first : Quotable) : Option (Space × Quotable) → List Char
  | none => '(' :: first.before [')']
  | some (space, second) => '(' :: first.before (',' :: (space.text ++ second.before [')']))

theorem noteText_eq_cons (first : Quotable) (second : Option (Space × Quotable)) :
    ∃ more, noteText first second = '(' :: more := by
  rcases second with _ | ⟨space, second⟩
  · exact ⟨_, rfl⟩
  · exact ⟨_, rfl⟩

/-- A qualifier: a keyword, a deprecation notice with one or two texts, or a version. -/
inductive Qualifier where
  | keyword (word : String) (known : word ∈ keywords)
  | deprecated (since : Quotable) (reason : Option (Space × Quotable))
  | version (number : Quotable)

namespace Qualifier

/-- The word that a qualifier starts with. -/
def lead : Qualifier → List Char
  | keyword word _ => word.toList
  | deprecated _ _ => "deprecated".toList
  | version _ => "version".toList

/-- What stands behind the first word of a qualifier. -/
def arguments : Qualifier → List Char
  | keyword _ _ => []
  | deprecated since reason => noteText since reason
  | version number => noteText number none

def text (qualifier : Qualifier) : List Char :=
  qualifier.lead ++ qualifier.arguments

theorem text_keyword (word : String) (known : word ∈ keywords) :
    (keyword word known).text = word.toList :=
  List.append_nil _

theorem text_deprecated (since : Quotable) :
    (deprecated since none).text = "deprecated(".toList ++ since.before [')'] := rfl

theorem text_deprecated_reason (since reason : Quotable) (space : Space) :
    (deprecated since (some (space, reason))).text =
      "deprecated(".toList ++ since.before (',' :: (space.text ++ reason.before [')'])) := rfl

theorem text_version (number : Quotable) :
    (version number).text = "version(".toList ++ number.before [')'] := rfl

end Qualifier

theorem isWord_of_mem_keywords {keyword : String} (h : keyword ∈ keywords) :
    IsWord keyword.toList := by
  revert keyword
  decide

theorem Qualifier.isWord_lead (qualifier : Qualifier) : IsWord qualifier.lead := by
  cases qualifier with
  | keyword word known => exact isWord_of_mem_keywords known
  | deprecated since reason => exact (by decide : IsWord "deprecated".toList)
  | version number => exact (by decide : IsWord "version".toList)

/-- A quoted text matches what can stand in double quotes, with its quotes. -/
theorem matches_quotedText {before : Option Char} {taken after : List Char} :
    quotedText.Matches before taken after ↔ ∃ quotable : Quotable, taken = quotable.before [] := by
  have hInside {text : List Char} : (∀ c ∈ text, (decide (c ≠ '"')) = true) ↔ '"' ∉ text := by
    simp only [decide_eq_true_eq]
    exact ⟨fun h hMem => h _ hMem rfl, fun h c hc hSame => h (hSame ▸ hc)⟩
  simp only [quotedText, Pattern.matches_all_cons, Pattern.matches_text, Pattern.matches_many_one,
    hInside]
  constructor
  · rintro ⟨_, _, rfl, rfl, inside, _, rfl, hFree, _, _, rfl, rfl, rfl⟩
    exact ⟨⟨inside, hFree⟩, rfl⟩
  · rintro ⟨⟨inside, hFree⟩, rfl⟩
    exact ⟨['"'], _, rfl, rfl, inside, ['"'], rfl, hFree, ['"'], [], rfl, rfl, rfl⟩

theorem Quotable.before_append (quotable : Quotable) (after more : List Char) :
    quotable.before after ++ more = quotable.before (after ++ more) := by
  simp [Quotable.before]

/-- The qualifiers with arguments. -/
theorem Qualifier.arguments_ne_nil_iff (qualifier : Qualifier) :
    qualifier.arguments ≠ [] ↔ (∃ since reason, qualifier = .deprecated since reason) ∨
      ∃ number, qualifier = .version number := by
  cases qualifier with
  | keyword word known => simp [arguments]
  | deprecated since reason =>
      obtain ⟨more, hMore⟩ := noteText_eq_cons since reason
      simp [arguments, hMore]
  | version number => simp [arguments, noteText]

/-- A note matches the qualifiers that have arguments. -/
theorem matches_noteQualifier {before : Option Char} {taken after : List Char} :
    noteQualifier.Matches before taken after ↔
      ∃ note : Qualifier, note.arguments ≠ [] ∧ taken = note.text := by
  have hNotes : (∃ note : Qualifier, note.arguments ≠ [] ∧ taken = note.text) ↔
      (∃ since reason, taken = (Qualifier.deprecated since reason).text) ∨
        ∃ number, taken = (Qualifier.version number).text := by
    simp only [Qualifier.arguments_ne_nil_iff]
    constructor
    · rintro ⟨_, ⟨since, reason, rfl⟩ | ⟨number, rfl⟩, hTaken⟩
      · exact .inl ⟨since, reason, hTaken⟩
      · exact .inr ⟨number, hTaken⟩
    · rintro (⟨since, reason, hTaken⟩ | ⟨number, hTaken⟩)
      · exact ⟨_, .inl ⟨since, reason, rfl⟩, hTaken⟩
      · exact ⟨_, .inr ⟨number, rfl⟩, hTaken⟩
  refine Iff.trans (or_congr ?_ ?_) hNotes.symm
  · simp only [Pattern.matches_all_cons, Pattern.matches_text, matches_quotedText, matches_blanks,
      Pattern.matches_optional]
    constructor
    · rintro ⟨_, _, rfl, rfl, _, _, rfl, ⟨since, rfl⟩, _, _, rfl, hReason, _, _, rfl, rfl, rfl⟩
      rcases hReason with ⟨_, _, rfl, rfl, space, _, rfl, hSpace, _, _, rfl, ⟨reason, rfl⟩, rfl⟩ |
        rfl
      · refine ⟨since, some (⟨space, hSpace⟩, reason), ?_⟩
        rw [Qualifier.text_deprecated_reason, Quotable.before_append]
        simp [Quotable.before]
      · refine ⟨since, none, ?_⟩
        rw [Qualifier.text_deprecated, Quotable.before_append]
        rfl
    · rintro ⟨since, _ | ⟨space, reason⟩, rfl⟩
      · exact ⟨_, _, Qualifier.text_deprecated since, rfl, since.before [], [')'],
          (since.before_append [] _).symm, ⟨since, rfl⟩, [], [')'], rfl, .inr rfl, [')'], [], rfl,
          rfl, rfl⟩
      · refine ⟨_, _, Qualifier.text_deprecated_reason since reason space, rfl, since.before [],
          ',' :: (space.text ++ reason.before []) ++ [')'], ?_, ⟨since, rfl⟩, _, [')'], rfl,
          .inl ⟨[','], _, rfl, rfl, space.text, _, rfl, space.blank, reason.before [], [],
            (List.append_nil _).symm, ⟨reason, rfl⟩, rfl⟩, [')'], [], rfl, rfl, rfl⟩
        simp [Quotable.before]
  · simp only [Pattern.matches_all_cons, Pattern.matches_text, matches_quotedText]
    constructor
    · rintro ⟨_, _, rfl, rfl, _, _, rfl, ⟨number, rfl⟩, _, _, rfl, rfl, rfl⟩
      refine ⟨number, ?_⟩
      rw [Qualifier.text_version, Quotable.before_append]
      rfl
    · rintro ⟨number, rfl⟩
      exact ⟨_, _, Qualifier.text_version number, rfl, number.before [], [')'],
        (number.before_append [] _).symm, ⟨number, rfl⟩, [')'], [], rfl, rfl, rfl⟩

/-- A qualifier matches the written qualifiers and nothing else. -/
theorem matches_qualifier {before : Option Char} {taken after : List Char} :
    qualifier.Matches before taken after ↔ ∃ written : Qualifier, taken = written.text := by
  constructor
  · rintro (hKeyword | hNote)
    · obtain ⟨p, hp, hMatch⟩ := Pattern.exists_of_matches_anyOf hKeyword
      obtain ⟨keyword, hMem, rfl⟩ := List.mem_map.mp hp
      exact ⟨.keyword keyword hMem, (Pattern.matches_text.mp hMatch).trans
        (Qualifier.text_keyword keyword hMem).symm⟩
    · obtain ⟨note, -, hTaken⟩ := matches_noteQualifier.mp hNote
      exact ⟨note, hTaken⟩
  · rintro ⟨written, rfl⟩
    by_cases hNote : written.arguments = []
    · cases written with
      | keyword word known =>
          exact .inl (Pattern.matches_anyOf (List.mem_map_of_mem known)
            (Pattern.matches_text.mpr (Qualifier.text_keyword word known)))
      | deprecated since reason =>
          exact absurd hNote ((Qualifier.arguments_ne_nil_iff _).mpr (.inl ⟨_, _, rfl⟩))
      | version number =>
          exact absurd hNote ((Qualifier.arguments_ne_nil_iff _).mpr (.inr ⟨_, rfl⟩))
    · exact .inr (matches_noteQualifier.mpr ⟨written, hNote, rfl⟩)

/-- A quoted text ends at its second quote. -/
theorem Quotable.before_unique {quotable other : Quotable} {after after' : List Char}
    (h : quotable.before after = other.before after') :
    quotable.text = other.text ∧ after = after' := by
  have hInside (text : Quotable) : ∀ c ∈ text.text, c ≠ '"' :=
    fun c hc hSame => text.free (hSame ▸ hc)
  obtain ⟨-, hRest⟩ := List.cons.inj h
  obtain ⟨hText, -, hAfter⟩ := splitFirst_unique (hInside quotable) (by simp) (hInside other)
    (by simp) hRest
  exact ⟨hText, hAfter⟩

/-- Where a word ends that is not followed by a parenthesis. -/
def WordEnds (rest : List Char) : Prop :=
  ∃ mark more, rest = mark :: more ∧ ¬isWordChar mark = true ∧ mark ≠ '('

theorem AllBlank.wordEnds {gap rest : List Char} (h : AllBlank gap) (hGap : gap ≠ []) :
    WordEnds (gap ++ rest) := by
  obtain ⟨b, blanks, rfl⟩ := List.exists_cons_of_ne_nil hGap
  have hb := h b List.mem_cons_self
  refine ⟨b, blanks ++ rest, rfl, fun hWord => not_isAsciiBlank_of_word hWord hb, ?_⟩
  rintro rfl
  revert hb
  decide

/-- Where the arguments of a note end is fixed by the text that starts with them. -/
theorem noteText_unique (first first' : Quotable) (second second' : Option (Space × Quotable))
    {rest rest' : List Char}
    (h : noteText first second ++ rest = noteText first' second' ++ rest') :
    noteText first second = noteText first' second' := by
  rcases second with _ | ⟨space, second⟩ <;> rcases second' with _ | ⟨space', second'⟩
  all_goals
    simp only [noteText, List.cons_append, Quotable.before_append] at h ⊢
    obtain ⟨hFirst, hAfter⟩ := Quotable.before_unique (List.cons.inj h).2
  · rw [Quotable.before, Quotable.before, hFirst]
  · exact absurd (List.cons.inj hAfter).1 (by decide)
  · exact absurd (List.cons.inj hAfter).1 (by decide)
  · rw [List.append_assoc, List.append_assoc, Quotable.before_append, Quotable.before_append]
      at hAfter
    obtain ⟨hSpace, -, hSecond⟩ := splitFirst_unique space.blank (by decide) space'.blank
      (by decide) (List.cons.inj hAfter).2
    obtain ⟨hSecond, -⟩ := Quotable.before_unique (congrArg (List.cons '"') hSecond)
    simp only [Quotable.before, hFirst, hSpace, hSecond]

/-- The first word of a qualifier ends where its arguments start; if it has none, then where the
text goes on. -/
theorem Qualifier.exists_mark (qualifier : Qualifier) {rest : List Char}
    (hRest : qualifier.arguments = [] → WordEnds rest) :
    ∃ mark more, qualifier.arguments ++ rest = mark :: more ∧ ¬isWordChar mark = true ∧
      (mark = '(' ↔ qualifier.arguments ≠ []) := by
  cases qualifier with
  | keyword word known =>
      obtain ⟨mark, more, rfl, hMark, hNoOpen⟩ := hRest rfl
      exact ⟨mark, more, rfl, hMark, by simp [hNoOpen, arguments]⟩
  | deprecated since reason =>
      obtain ⟨more, hMore⟩ := noteText_eq_cons since reason
      exact ⟨'(', more ++ rest, by rw [arguments, hMore]; rfl, by decide,
        by simp [arguments, hMore]⟩
  | version number =>
      obtain ⟨more, hMore⟩ := noteText_eq_cons number none
      exact ⟨'(', more ++ rest, by rw [arguments, hMore]; rfl, by decide,
        by simp [arguments, hMore]⟩

/-- A qualifier ends in one way only. -/
theorem Qualifier.text_unique {qualifier other : Qualifier} {rest rest' : List Char}
    (hRest : qualifier.arguments = [] → WordEnds rest)
    (hRest' : other.arguments = [] → WordEnds rest')
    (h : qualifier.text ++ rest = other.text ++ rest') : qualifier.text = other.text := by
  obtain ⟨mark, more, hMore, hMark, hOpen⟩ := qualifier.exists_mark hRest
  obtain ⟨mark', more', hMore', hMark', hOpen'⟩ := other.exists_mark hRest'
  have hSplit := h
  rw [text, text, List.append_assoc, List.append_assoc, hMore, hMore'] at hSplit
  obtain ⟨hLead, rfl, rfl⟩ := splitFirst_unique qualifier.isWord_lead.2 hMark other.isWord_lead.2
    hMark' hSplit
  have hBehind : qualifier.arguments ++ rest = other.arguments ++ rest' := hMore.trans hMore'.symm
  have hArguments : qualifier.arguments = other.arguments := by
    have hBoth := hOpen.symm.trans hOpen'
    cases qualifier with
    | keyword word known =>
        have hNone : other.arguments = [] := by simpa [arguments] using hBoth
        rw [hNone, arguments]
    | deprecated since reason =>
        cases other with
        | keyword word known => simpa [arguments] using hBoth
        | deprecated since' reason' => exact noteText_unique since since' reason reason' hBehind
        | version number => exact noteText_unique since number reason none hBehind
    | version number =>
        cases other with
        | keyword word known => simpa [arguments] using hBoth
        | deprecated since' reason' => exact noteText_unique number since' none reason' hBehind
        | version number' => exact noteText_unique number number' none none hBehind
  rw [text, text, hLead, hArguments]

end Qualifiers

section Head

/-- An item of a run is a qualifier at the start of a word, with blanks behind it. -/
theorem matches_qualifierItem {before : Option Char} {taken after : List Char} :
    qualifierItem.Matches before taken after ↔
      isBoundary isWordChar before (taken ++ after).head? = true ∧
        ∃ (written : Qualifier) (gap : List Char), taken = written.text ++ gap ∧ gap ≠ [] ∧
          AllBlank gap := by
  simp only [qualifierItem, Pattern.matches_all_cons, matches_qualifier]
  constructor
  · rintro ⟨_, _, rfl, ⟨rfl, hEdge⟩, _, _, rfl, ⟨written, rfl⟩, gap, _, rfl, hGap, rfl⟩
    rw [List.append_nil]
    exact ⟨by simpa using hEdge, written, gap, rfl, Pattern.matches_atLeastOnce_one.mp hGap⟩
  · rintro ⟨hEdge, written, gap, rfl, hGap⟩
    exact ⟨[], _, rfl, ⟨rfl, hEdge⟩, _, gap, rfl, ⟨written, rfl⟩, gap, [],
      (List.append_nil gap).symm, Pattern.matches_atLeastOnce_one.mpr hGap, rfl⟩

/-- A qualifier without arguments is one of the keywords. -/
theorem Qualifier.lead_mem_keywords {qualifier : Qualifier} (h : qualifier.arguments = []) :
    String.ofList qualifier.lead ∈ keywords := by
  cases qualifier with
  | keyword word known => exact (String.ofList_toList (s := word)).symm ▸ known
  | deprecated since reason =>
      obtain ⟨more, hMore⟩ := noteText_eq_cons since reason
      cases hMore.symm.trans h
  | version number => cases h

/-- Where a word stands that is no keyword, there is no qualifier. -/
theorem not_matches_qualifierItem {before : Option Char} {taken after first rest : List Char}
    (hFirst : IsWord first) (hPlain : String.ofList first ∉ keywords) (hRest : WordEnds rest)
    (hText : taken ++ after = first ++ rest) : ¬ qualifierItem.Matches before taken after := by
  intro h
  obtain ⟨-, written, gap, rfl, hGap, hBlank⟩ := matches_qualifierItem.mp h
  have hBehind : WordEnds (gap ++ after) := hBlank.wordEnds hGap
  obtain ⟨mark, more, hMore, hMark, hOpen⟩ := written.exists_mark fun _ => hBehind
  obtain ⟨mark', more', rfl, hMark', hNoOpen⟩ := hRest
  rw [Qualifier.text, List.append_assoc, List.append_assoc, hMore] at hText
  obtain ⟨rfl, rfl, -⟩ := splitFirst_unique written.isWord_lead.2 hMark hFirst.2 hMark' hText
  refine hPlain (Qualifier.lead_mem_keywords ?_)
  by_contra hArguments
  exact hNoOpen (hOpen.mpr hArguments)

/-- A return type holds word characters, blanks and commas only. -/
theorem returnTypeText_within {mark : Char} (hWord : isWordChar mark = false)
    (hBlank : isAsciiBlank mark = false) (hComma : ',' ≠ mark) :
    returnTypeText.Within (· ≠ mark) := by
  have hWords (c : Char) (h : isWordChar c = true) : ¬c = mark := by
    rintro rfl
    rw [h] at hWord
    cases hWord
  have hBlanks (c : Char) (h : isAsciiBlank c = true) : ¬c = mark := by
    rintro rfl
    rw [h] at hBlank
    cases hBlank
  simp only [returnTypeText, wordGroup, word, blanks, blanks₁, Pattern.optional,
    Pattern.atLeastOnce, Pattern.all, Pattern.Within]
  have hCommas : (Pattern.text ",").Within (· ≠ mark) := by
    simpa [Pattern.text, Pattern.all, Pattern.Within] using hComma
  exact ⟨⟨⟨⟨hWords, hWords⟩, ⟨hBlanks, hBlanks⟩, hWords, hWords⟩, hBlanks, hCommas, hBlanks,
    ⟨hWords, hWords⟩, ⟨hBlanks, hBlanks⟩, hWords, hWords⟩, trivial⟩

/-- A text that ends inside a word. -/
def EndsInWord (text : List Char) : Prop :=
  ∃ front c, text = front ++ [c] ∧ isWordChar c = true

theorem EndsInWord.ne_nil {text : List Char} (h : EndsInWord text) : text ≠ [] := by
  obtain ⟨front, c, rfl, -⟩ := h
  simp

theorem EndsInWord.append {text : List Char} (h : EndsInWord text) (front : List Char) :
    EndsInWord (front ++ text) := by
  obtain ⟨inner, c, rfl, hc⟩ := h
  exact ⟨front ++ inner, c, (List.append_assoc ..).symm, hc⟩

theorem IsWord.endsInWord {text : List Char} (h : IsWord text) : EndsInWord text := by
  rcases List.eq_nil_or_concat' text with rfl | ⟨front, c, rfl⟩
  · exact absurd rfl h.1
  · exact ⟨front, c, rfl, h.2 c (by simp)⟩

/-- Text that ends inside a word still does so after repeated pieces that do. -/
theorem endsInWord_of_repeats {step : Option Char → List Char → List Char → Prop}
    {before : Option Char} {front taken after : List Char} (hFront : EndsInWord front)
    (hStep : ∀ before piece after, step before piece after → EndsInWord piece)
    (h : Pattern.Repeats step before taken after) : EndsInWord (front ++ taken) := by
  induction h generalizing front with
  | done =>
      rw [List.append_nil]
      exact hFront
  | more first others ih =>
      rw [← List.append_assoc]
      exact ih ((hStep _ _ _ first).append front)

/-- A group of words ends inside a word. -/
theorem endsInWord_of_wordGroup {before : Option Char} {taken after : List Char}
    (h : wordGroup.Matches before taken after) : EndsInWord taken := by
  obtain ⟨front, others, rfl, hFront, hOthers⟩ := h
  have hFirst : IsWord front := Pattern.matches_atLeastOnce_one.mp hFront
  refine endsInWord_of_repeats hFirst.endsInWord (fun _ _ _ hPiece => ?_) hOthers
  obtain ⟨gap, piece, rfl, -, hPiece⟩ := hPiece
  have hWord : IsWord piece := Pattern.matches_atLeastOnce_one.mp hPiece
  exact hWord.endsInWord.append gap

/-- A return type ends inside a word. -/
theorem endsInWord_of_returnTypeText {before : Option Char} {taken after : List Char}
    (h : returnTypeText.Matches before taken after) : EndsInWord taken ∨ taken = [] := by
  rcases h with ⟨front, others, rfl, hFront, hOthers⟩ | hNone
  · refine .inl (endsInWord_of_repeats (endsInWord_of_wordGroup hFront) (fun _ _ _ hPiece => ?_)
      hOthers)
    obtain ⟨space, _, rfl, -, comma, _, rfl, -, gap, group, rfl, -, hGroup⟩ := hPiece
    exact (((endsInWord_of_wordGroup hGroup).append gap).append comma).append space
  · exact .inr hNone

/-- Blanks behind a word are there in one way only. -/
theorem blanks_unique {text text' space space' : List Char} (hText : EndsInWord text)
    (hText' : EndsInWord text') (hSpace : AllBlank space) (hSpace' : AllBlank space')
    (h : text ++ space = text' ++ space') : text = text' ∧ space = space' := by
  obtain ⟨front, c, rfl, hc⟩ := hText
  obtain ⟨front', c', rfl, hc'⟩ := hText'
  rw [List.append_assoc, List.append_assoc] at h
  obtain ⟨rfl, rfl, rfl⟩ := splitLast_unique hSpace (not_isAsciiBlank_of_word hc) hSpace'
    (not_isAsciiBlank_of_word hc') h
  exact ⟨rfl, rfl⟩

/-- A word behind blanks is there in one way only. -/
theorem word_unique {text text' name name' : List Char}
    (hText : ∃ front b, text = front ++ [b] ∧ isAsciiBlank b = true)
    (hText' : ∃ front b, text' = front ++ [b] ∧ isAsciiBlank b = true) (hName : IsWord name)
    (hName' : IsWord name') (h : text ++ name = text' ++ name') : text = text' ∧ name = name' := by
  obtain ⟨front, b, rfl, hb⟩ := hText
  obtain ⟨front', b', rfl, hb'⟩ := hText'
  rw [List.append_assoc, List.append_assoc] at h
  obtain ⟨rfl, rfl, rfl⟩ := splitLast_unique hName.2
    (fun hWord => not_isAsciiBlank_of_word hWord hb) hName'.2
    (fun hWord => not_isAsciiBlank_of_word hWord hb') h
  exact ⟨rfl, rfl⟩

variable {before : Option Char} {parts written : Parts}

/-- The declaration has no qualifiers, and it starts with a word that is no keyword. -/
structure Parts.Plain (parts : Parts) : Prop where
  qualifiers : parts.qualifiers = []
  word : ∃ first rest, parts.text = first ++ rest ∧ IsWord first ∧
    String.ofList first ∉ keywords ∧ WordEnds rest

theorem Parts.Valid.gap_last (h : parts.Valid before) (front : List Char) :
    ∃ inner b, front ++ parts.gap = inner ++ [b] ∧ isAsciiBlank b = true := by
  obtain ⟨hGap, hBlank⟩ := h.gap
  rcases List.eq_nil_or_concat' parts.gap with hNil | ⟨blanks, b, hBlanks⟩
  · exact absurd hNil hGap
  · exact ⟨front ++ blanks, b, by rw [hBlanks, List.append_assoc], hBlank b (by simp [hBlanks])⟩

/-- A plain return type ends inside a word, so that blanks have to follow it. -/
theorem Parts.Valid.endsInWord (h : parts.Valid before) (hPlain : parts.Plain) :
    EndsInWord parts.returnType := by
  rcases endsInWord_of_returnTypeText h.returnType with hWord | hNone
  · exact hWord
  · exfalso
    obtain ⟨first, rest, hText, hFirst, -⟩ := hPlain.word
    obtain ⟨hGap, hBlank⟩ := h.gap
    obtain ⟨b, blanks, hBlanks⟩ := List.exists_cons_of_ne_nil hGap
    obtain ⟨c, others, rfl⟩ := List.exists_cons_of_ne_nil hFirst.1
    rw [text, hPlain.qualifiers, hNone, Parts.rest, hBlanks] at hText
    obtain ⟨rfl, -⟩ := List.cons.inj hText
    exact not_isAsciiBlank_of_word (hFirst.2 b List.mem_cons_self)
      (hBlank b (by simp [hBlanks]))

/-- Between the qualifiers and the parenthesis stand word characters, blanks and commas only. -/
theorem Parts.Valid.ne_of_mem_head (h : parts.Valid before) {c mark : Char}
    (hc : c ∈ ((parts.returnType ++ parts.gap) ++ parts.name) ++ parts.space)
    (hWord : isWordChar mark = false) (hBlank : isAsciiBlank mark = false) (hComma : ',' ≠ mark) :
    c ≠ mark := by
  simp only [List.mem_append] at hc
  rcases hc with ((hc | hc) | hc) | hc
  · exact h.returnType.within (returnTypeText_within hWord hBlank hComma) c hc
  · exact ne_of_mem_blanks h.gap.2 hc hBlank
  · exact ne_of_mem_word h.name hc hWord
  · exact ne_of_mem_blanks h.space hc hBlank

/-- The first opening parenthesis is the one after the name. -/
theorem Parts.Valid.parentheses_eq (h : parts.Valid before) (hWritten : written.Valid before)
    (hQualifiers : parts.qualifiers = written.qualifiers) (hText : parts.text = written.text) :
    ((parts.returnType ++ parts.gap) ++ parts.name) ++ parts.space =
        ((written.returnType ++ written.gap) ++ written.name) ++ written.space ∧
      parts.params ++ ')' :: (parts.ending ++ parts.terminator :: parts.after) =
        written.params ++ ')' :: (written.ending ++ written.terminator :: written.after) := by
  have hNone {some : Parts} (hSome : some.Valid before) :
      ∀ d ∈ ((some.returnType ++ some.gap) ++ some.name) ++ some.space, d ≠ '(' :=
    fun d hd => hSome.ne_of_mem_head hd (by decide) (by decide) (by decide)
  unfold Parts.text at hText
  rw [hQualifiers, List.append_cancel_left_eq] at hText
  simp only [Parts.rest, Parts.call, ← List.append_assoc _ _ ('(' :: _)] at hText
  simp only [← List.append_assoc] at hText
  obtain ⟨hNames, -, hArguments⟩ := splitFirst_unique (hNone h) (by simp) (hNone hWritten) (by simp)
    hText
  exact ⟨hNames, hArguments⟩

/-- The parts before the parenthesis, from the last one on. -/
theorem Parts.Valid.names_eq (h : parts.Valid before) (hWritten : written.Valid before)
    (hType : EndsInWord written.returnType)
    (hText : ((parts.returnType ++ parts.gap) ++ parts.name) ++ parts.space =
      ((written.returnType ++ written.gap) ++ written.name) ++ written.space) :
    parts.returnType = written.returnType ∧ parts.name = written.name := by
  obtain ⟨hNames, -⟩ := blanks_unique (h.name.endsInWord.append _)
    (hWritten.name.endsInWord.append _) h.space hWritten.space hText
  obtain ⟨hTypes, hName⟩ := word_unique (h.gap_last _) (hWritten.gap_last _) h.name hWritten.name
    hNames
  refine ⟨?_, hName⟩
  rcases endsInWord_of_returnTypeText h.returnType with hRead | hNone
  · exact (blanks_unique hRead hType h.gap.2 hWritten.gap.2 hTypes).1
  · -- the last character of the written type would be one of the blanks
    obtain ⟨front, c, hFront, hc⟩ := hType
    rw [hNone, hFront, List.nil_append] at hTypes
    exact absurd (h.gap.2 c (by simp [hTypes])) (not_isAsciiBlank_of_word hc)

/-- After the closing parenthesis a terminator is found in one way only. -/
theorem Parts.Valid.terminator_eq (h : parts.Valid before) (hWritten : written.Valid before)
    (hText : parts.ending ++ parts.terminator :: parts.after =
      written.ending ++ written.terminator :: written.after) :
    parts.terminator = written.terminator := by
  have hNoBlank {d : Char} (hd : isTerminator d = true) : ¬isAsciiBlank d = true := by
    simp only [isTerminator, Bool.or_eq_true, decide_eq_true_eq] at hd
    rcases hd with rfl | rfl <;> decide
  have hConst : "const".toList = 'c' :: "onst".toList := by decide
  have hBlank {first last : List Char} (hFirst : AllBlank first) (hLast : AllBlank last) :
      AllBlank (first ++ last) := List.forall_mem_append.mpr ⟨hFirst, hLast⟩
  obtain ⟨first, word, last, hParts, hFirst, hWord, hLast⟩ := h.ending
  obtain ⟨first', word', last', hParts', hFirst', hWord', hLast'⟩ := hWritten.ending
  rw [hParts, hParts'] at hText
  rcases hWord with rfl | rfl <;> rcases hWord' with rfl | rfl
  · rw [hConst] at hText
    simp only [List.append_assoc, List.cons_append] at hText
    obtain ⟨-, -, hBehind⟩ := splitFirst_unique hFirst (by decide) hFirst' (by decide) hText
    exact (splitFirst_unique hLast (hNoBlank h.terminator) hLast' (hNoBlank hWritten.terminator)
      (List.append_cancel_left hBehind)).2.1
  · rw [hConst] at hText
    simp only [List.append_assoc, List.cons_append, List.nil_append] at hText
    rw [← List.append_assoc first'] at hText
    obtain ⟨-, hMark, -⟩ := splitFirst_unique hFirst (by decide) (hBlank hFirst' hLast')
      (hNoBlank hWritten.terminator) hText
    exact absurd (hMark ▸ hWritten.terminator) (by decide)
  · rw [hConst] at hText
    simp only [List.append_assoc, List.cons_append, List.nil_append] at hText
    rw [← List.append_assoc first] at hText
    obtain ⟨-, hMark, -⟩ := splitFirst_unique (hBlank hFirst hLast) (hNoBlank h.terminator) hFirst'
      (by decide) hText
    exact absurd (hMark ▸ h.terminator) (by decide)
  · exact (splitFirst_unique (hBlank hFirst hLast) (hNoBlank h.terminator) (hBlank hFirst' hLast')
      (hNoBlank hWritten.terminator) hText).2.1

/-- Behind the same qualifiers there is one declaration only. -/
theorem Parts.Valid.declaration_eq (h : parts.Valid before) (hWritten : written.Valid before)
    (hWord : EndsInWord written.returnType) (hQualifiers : parts.qualifiers = written.qualifiers)
    (hText : parts.text = written.text) : parts.declaration = written.declaration := by
  obtain ⟨hNames, hArguments⟩ := h.parentheses_eq hWritten hQualifiers hText
  obtain ⟨hType, hName⟩ := h.names_eq hWritten hWord hNames
  have hNoClosing {text : List Char} (hText : ')' ∉ text) : ∀ d ∈ text, d ≠ ')' :=
    fun d hd hSame => hText (hSame ▸ hd)
  obtain ⟨hInside, -, hBehind⟩ := splitFirst_unique (hNoClosing h.params) (by simp)
    (hNoClosing hWritten.params) (by simp) hArguments
  have hTerminator := h.terminator_eq hWritten hBehind
  rw [Parts.declaration, Parts.declaration, hQualifiers, hType, hName, hInside, hTerminator]

/-- What starts with a word that is no keyword has no qualifiers. -/
theorem Parts.Valid.qualifiers_eq_nil (h : parts.Valid before) (hPlain : written.Plain)
    (hText : parts.text = written.text) : parts.qualifiers = [] := by
  obtain ⟨first, rest, hFirstText, hFirst, hNoKeyword, hRest⟩ := hPlain.word
  have hRun := h.qualifiers
  rw [hFirstText, Parts.text] at hText
  change Pattern.Repeats _ before _ _ at hRun
  generalize parts.qualifiers = run at hRun hText
  cases hRun with
  | done => rfl
  | more item others =>
      exact absurd item (not_matches_qualifierItem hFirst hNoKeyword hRest (by simpa using hText))

/-- A declaration that starts with a word that is no keyword is read as it is written. -/
theorem readAt?_plain (hWritten : written.Valid before) (hPlain : written.Plain) :
    readAt? ⟨before, written.text⟩ = some written.declaration := by
  obtain ⟨declaration, hRead⟩ := Option.isSome_iff_exists.mp (readAt?_complete hWritten)
  obtain ⟨parts, hSame, hValid, rfl⟩ := readAt?_sound hRead
  have hQualifiers := hValid.qualifiers_eq_nil hPlain hSame.symm
  rw [hRead, hValid.declaration_eq hWritten (hWritten.endsInWord hPlain)
    (hQualifiers.trans hPlain.qualifiers.symm) hSame.symm]

theorem qualifierTokens_nil : qualifierTokens [] = [] := by
  unfold qualifierTokens
  rw [Cursor.findAll]
  rfl

/-- A single word is a return type. -/
theorem matches_returnTypeText_word {type rest : List Char} (h : IsWord type) :
    returnTypeText.Matches before type rest := by
  have hWord : word.Matches before type rest := Pattern.matches_atLeastOnce_one.mpr h
  refine .inl ⟨type, [], by simp, ?_, .done _ _⟩
  exact ⟨type, [], by simp, by simpa using hWord, .done _ _⟩

/-- A line that starts with the head of a declaration declares that: a type that is no qualifier, a
name, parameters, and a terminator after blanks. -/
theorem read?_head {type name params ending after : List Char} {c : Char} (hType : IsWord type)
    (hPlain : String.ofList type ∉ keywords) (hName : IsWord name) (hParams : ')' ∉ params)
    (hEnding : AllBlank ending) (hc : isTerminator c = true) :
    read? (type ++ ' ' :: (name ++ '(' :: (params ++ ')' :: (ending ++ c :: after)))) =
      some ⟨[], String.ofList type, String.ofList name, String.ofList (trim params), c⟩ := by
  have hGap : AllBlank [' '] := by decide
  have hNone : AllBlank [] := fun _ hMem => absurd hMem List.not_mem_nil
  let written : Parts := ⟨[], type, [' '], name, [], params, ending, c, after⟩
  have hWritten : written.Valid none := {
    qualifiers := .done _ _
    returnType := matches_returnTypeText_word hType
    gap := ⟨List.cons_ne_nil _ _, hGap⟩
    name := hName
    space := hNone
    params := hParams
    ending := ⟨ending, [], [], by simp [written], hEnding, .inr rfl, hNone⟩
    terminator := hc }
  have hText : written.text =
      type ++ ' ' :: (name ++ '(' :: (params ++ ')' :: (ending ++ c :: after))) := by
    simp [written, Parts.text, Parts.rest, Parts.call]
  have hRead := readAt?_plain hWritten
    ⟨rfl, type, _, hText, hType, hPlain, ' ', _, rfl, by decide, by decide⟩
  rw [hText] at hRead
  rw [read?_eq_findFirst]
  refine Pattern.firstAt_of_some (hRead.trans ?_)
  rw [Parts.declaration, qualifierTokens_nil]

end Head

end SignatureIndex.Declaration
