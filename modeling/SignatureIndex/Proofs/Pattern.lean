import SignatureIndex.Text.Pattern

/-! What a pattern matches, told without the order in which ways are tried. A match takes some
text between a character before it and a text after it, since edges look at both. Running a pattern
finds an answer exactly if some match leads to one, and every answer it finds comes from a match. -/
namespace SignatureIndex.Text

/-- The place behind some text. -/
def Cursor.past (before : Option Char) (taken after : List Char) : Cursor :=
  ⟨taken.getLast?.or before, after⟩

@[simp] theorem Cursor.past_nil (before : Option Char) (after : List Char) :
    Cursor.past before [] after = ⟨before, after⟩ := rfl

/-- A cursor moves behind two texts one after the other. -/
theorem Cursor.past_append (before : Option Char) (front back after : List Char) :
    Cursor.past before (front ++ back) after =
      Cursor.past (front.getLast?.or before) back after := by
  rw [Cursor.past, List.getLast?_append, Option.or_assoc, Cursor.past]

namespace Pattern

/-- Pieces one after the other, each of them a step. -/
inductive Repeats (step : Option Char → List Char → List Char → Prop) :
    Option Char → List Char → List Char → Prop where
  | done (before : Option Char) (after : List Char) : Repeats step before [] after
  | more {before : Option Char} {piece rest after : List Char}
      (first : step before piece (rest ++ after))
      (others : Repeats step (piece.getLast?.or before) rest after) :
      Repeats step before (piece ++ rest) after

/-- The pattern can take a text that stands between a character and another text. -/
def Matches : Pattern → Option Char → List Char → List Char → Prop
  | nothing, _, taken, _ => taken = []
  | one accepts, _, taken, _ => ∃ c, taken = [c] ∧ accepts c = true
  | wordEdge isWord, before, taken, after =>
    taken = [] ∧ isBoundary isWord before after.head? = true
  | lineStart, before, taken, _ => taken = [] ∧ (before = none ∨ before = some '\n')
  | textEnd, _, taken, after => taken = [] ∧ (after = [] ∨ after = ['\n'])
  | both first second, before, taken, after =>
    ∃ front back, taken = front ++ back ∧ first.Matches before front (back ++ after) ∧
      second.Matches (front.getLast?.or before) back after
  | either first second, before, taken, after =>
    first.Matches before taken after ∨ second.Matches before taken after
  | many body, before, taken, after =>
    Repeats (fun first piece rest => body.Matches first piece rest) before taken after

/-- Items whose texts are steps wherever they stand. -/
theorem repeats_flatMap {α : Type} {step : Option Char → List Char → List Char → Prop}
    {piece : α → List Char} (h : ∀ item before after, step before (piece item) after)
    (items : List α) (before : Option Char) (after : List Char) :
    Repeats step before (items.flatMap piece) after := by
  induction items generalizing before with
  | nil => exact .done before after
  | cons item rest ih => exact .more (h item before _) (ih _)

/-- Repeated steps are made of items if each step is one. -/
theorem exists_items_of_repeats {α : Type} {step : Option Char → List Char → List Char → Prop}
    {piece : α → List Char} {before : Option Char} {taken after : List Char}
    (hStep : ∀ before taken after, step before taken after → ∃ item, taken = piece item)
    (h : Repeats step before taken after) : ∃ items : List α, taken = items.flatMap piece := by
  induction h with
  | done => exact ⟨[], rfl⟩
  | more first _ ih =>
      obtain ⟨item, rfl⟩ := hStep _ _ _ first
      obtain ⟨items, rfl⟩ := ih
      exact ⟨item :: items, rfl⟩

/-- Every character that the pattern can take is allowed. -/
def Within (allowed : Char → Prop) : Pattern → Prop
  | nothing => True
  | one accepts => ∀ c, accepts c = true → allowed c
  | wordEdge _ => True
  | lineStart => True
  | textEnd => True
  | both first second => first.Within allowed ∧ second.Within allowed
  | either first second => first.Within allowed ∧ second.Within allowed
  | many body => body.Within allowed

/-- A match holds only characters that the pattern can take. -/
theorem Matches.within {allowed : Char → Prop} {p : Pattern} {before : Option Char}
    {taken after : List Char} (h : p.Matches before taken after) (hWithin : p.Within allowed) :
    ∀ c ∈ taken, allowed c := by
  induction p generalizing before taken after with
  | nothing =>
      cases h
      simp
  | one accepts =>
      obtain ⟨c, rfl, hc⟩ := h
      simpa using hWithin c hc
  | wordEdge | lineStart | textEnd =>
      obtain ⟨rfl, _⟩ := h
      simp
  | both first second ihFirst ihSecond =>
      obtain ⟨front, back, rfl, hFront, hBack⟩ := h
      intro c hc
      rcases List.mem_append.mp hc with hc | hc
      · exact ihFirst hFront hWithin.1 c hc
      · exact ihSecond hBack hWithin.2 c hc
  | either first second ihFirst ihSecond =>
      rcases h with hFirst | hSecond
      · exact ihFirst hFirst hWithin.1
      · exact ihSecond hSecond hWithin.2
  | many body ih =>
      change Repeats _ before taken after at h
      induction h with
      | done => simp
      | more hFirst _ ihOthers =>
          intro c hc
          rcases List.mem_append.mp hc with hc | hc
          · exact ih hFirst hWithin c hc
          · exact ihOthers c hc

section Run

variable {β : Type}

/-- The answers of a repetition come from repeated steps. -/
theorem repeatAlong_sound {step : Cursor → (Cursor → Option β) → Option β}
    {relation : Option Char → List Char → List Char → Prop}
    (hStep : ∀ before rest accept result, step ⟨before, rest⟩ accept = some result →
      ∃ taken after, rest = taken ++ after ∧ relation before taken after ∧
        accept (Cursor.past before taken after) = some result)
    (bound : List Char) (before : Option Char) (rest : List Char) (accept : Cursor → Option β)
    {result : β} (h : repeatAlong step bound ⟨before, rest⟩ accept = some result) :
    ∃ taken after, rest = taken ++ after ∧ Repeats relation before taken after ∧
      accept (Cursor.past before taken after) = some result := by
  induction bound generalizing before rest with
  | nil => exact ⟨[], rest, rfl, .done before rest, h⟩
  | cons c bound ih =>
      simp only [repeatAlong] at h
      split at h
      · next found hFirst =>
          cases h
          obtain ⟨piece, middle, rfl, hPiece, hLater⟩ := hStep _ _ _ _ hFirst
          obtain ⟨others, after, rfl, hOthers, hAccept⟩ := ih _ _ hLater
          refine ⟨piece ++ others, after, (List.append_assoc ..).symm, .more hPiece hOthers, ?_⟩
          rwa [Cursor.past_append]
      · exact ⟨[], rest, rfl, .done before rest, h⟩

/-- Every answer comes from a match. -/
theorem run_sound (p : Pattern) (before : Option Char) (rest : List Char)
    (accept : Cursor → Option β) {result : β} (h : p.run ⟨before, rest⟩ accept = some result) :
    ∃ taken after, rest = taken ++ after ∧ p.Matches before taken after ∧
      accept (Cursor.past before taken after) = some result := by
  induction p generalizing before rest accept result with
  | nothing => exact ⟨[], rest, rfl, rfl, h⟩
  | one accepts =>
      simp only [run] at h
      split at h
      · cases h
      · next c after =>
          split at h
          · next hc => exact ⟨[c], after, rfl, ⟨c, rfl, hc⟩, h⟩
          · cases h
  | wordEdge isWord =>
      simp only [run] at h
      split at h
      · next hEdge => exact ⟨[], rest, rfl, ⟨rfl, hEdge⟩, h⟩
      · cases h
  | lineStart =>
      simp only [run] at h
      split at h
      · next hStart => exact ⟨[], rest, rfl, ⟨rfl, hStart⟩, h⟩
      · cases h
  | textEnd =>
      simp only [run] at h
      split at h
      · next hEnd => exact ⟨[], rest, rfl, ⟨rfl, hEnd⟩, h⟩
      · cases h
  | both first second ihFirst ihSecond =>
      obtain ⟨front, middle, rfl, hFront, hLater⟩ := ihFirst _ _ _ h
      obtain ⟨back, after, rfl, hBack, hAccept⟩ := ihSecond _ _ _ hLater
      refine ⟨front ++ back, after, (List.append_assoc ..).symm,
        ⟨front, back, rfl, hFront, hBack⟩, ?_⟩
      rwa [Cursor.past_append]
  | either first second ihFirst ihSecond =>
      simp only [run] at h
      split at h
      · next found hFirst =>
          cases h
          obtain ⟨taken, after, hRest, hTaken, hAccept⟩ := ihFirst _ _ _ hFirst
          exact ⟨taken, after, hRest, .inl hTaken, hAccept⟩
      · obtain ⟨taken, after, hRest, hTaken, hAccept⟩ := ihSecond _ _ _ h
        exact ⟨taken, after, hRest, .inr hTaken, hAccept⟩
  | many body ih => exact repeatAlong_sound (fun _ _ _ _ hBody => ih _ _ _ hBody) _ _ _ _ h

/-- Repeated steps lead to an answer, if the bound has a character for each that they take. Steps
that take nothing need no room: they are left out. -/
theorem repeatAlong_complete {step : Cursor → (Cursor → Option β) → Option β}
    {relation : Option Char → List Char → List Char → Prop}
    (hStep : ∀ before taken after accept, relation before taken after →
      (accept (Cursor.past before taken after)).isSome →
      (step ⟨before, taken ++ after⟩ accept).isSome)
    {before : Option Char} {taken after : List Char} (hTaken : Repeats relation before taken after)
    (accept : Cursor → Option β) (hAccept : (accept (Cursor.past before taken after)).isSome)
    (bound : List Char) (hBound : taken.length ≤ bound.length) :
    (repeatAlong step bound ⟨before, taken ++ after⟩ accept).isSome := by
  induction hTaken generalizing bound with
  | done before after =>
      cases bound with
      | nil => exact hAccept
      | cons c bound =>
          simp only [repeatAlong]
          split
          · rfl
          · exact hAccept
  | @more before piece rest after first others ih =>
      rw [Cursor.past_append] at hAccept
      cases piece with
      | nil => exact ih hAccept bound hBound
      | cons d piece =>
          cases bound with
          | nil => simp at hBound
          | cons c bound =>
              have hRoom : rest.length ≤ bound.length := by
                simp only [List.length_append, List.length_cons] at hBound
                omega
              have hFirst := hStep before (d :: piece) (rest ++ after)
                (fun next => repeatAlong step bound next accept) first (ih hAccept bound hRoom)
              obtain ⟨result, hResult⟩ := Option.isSome_iff_exists.mp hFirst
              rw [List.append_assoc]
              simp only [repeatAlong, hResult, Option.isSome_some]

/-- A match that is accepted leads to an answer. -/
theorem run_complete (p : Pattern) (before : Option Char) (taken after : List Char)
    (accept : Cursor → Option β) (hTaken : p.Matches before taken after)
    (hAccept : (accept (Cursor.past before taken after)).isSome) :
    (p.run ⟨before, taken ++ after⟩ accept).isSome := by
  induction p generalizing before taken after accept with
  | nothing =>
      cases hTaken
      exact hAccept
  | one accepts =>
      obtain ⟨c, rfl, hc⟩ := hTaken
      simpa [run, hc, Cursor.past] using hAccept
  | wordEdge isWord =>
      obtain ⟨rfl, hEdge⟩ := hTaken
      simpa [run, hEdge] using hAccept
  | lineStart =>
      obtain ⟨rfl, hStart⟩ := hTaken
      simpa [run, hStart] using hAccept
  | textEnd =>
      obtain ⟨rfl, hEnd⟩ := hTaken
      simpa [run, hEnd] using hAccept
  | both first second ihFirst ihSecond =>
      obtain ⟨front, back, rfl, hFront, hBack⟩ := hTaken
      rw [Cursor.past_append] at hAccept
      rw [List.append_assoc]
      exact ihFirst before front (back ++ after) _ hFront
        (ihSecond _ back after accept hBack hAccept)
  | either first second ihFirst ihSecond =>
      simp only [run]
      split
      · rfl
      · next hNone =>
          rcases hTaken with hFirst | hSecond
          · have hSome := ihFirst before taken after accept hFirst hAccept
            rw [hNone] at hSome
            cases hSome
          · exact ihSecond before taken after accept hSecond hAccept
  | many body ih =>
      refine repeatAlong_complete (fun _ _ _ _ => ih _ _ _ _) hTaken accept hAccept _ ?_
      rw [List.length_append]
      exact Nat.le_add_right _ _

/-- A repetition whose bound is long enough stops only where going on leads to no answer. -/
theorem repeatAlong_greedy {p : Pattern} (hSome : ∀ before after, ¬p.Matches before [] after)
    {before : Option Char} {rest : List Char} {accept : Cursor → Option β} {result : β}
    (bound : List Char) (hBound : rest.length ≤ bound.length)
    (h : repeatAlong (fun next resume => p.run next resume) bound ⟨before, rest⟩ accept =
      some result) :
    ∃ taken after, rest = taken ++ after ∧ (many p).Matches before taken after ∧
      accept (Cursor.past before taken after) = some result ∧
      ∀ more after', after = more ++ after' → more ≠ [] →
        (many p).Matches (taken.getLast?.or before) more after' →
        accept (Cursor.past (taken.getLast?.or before) more after') = none := by
  have hLength {before : Option Char} {piece after : List Char}
      (hPiece : p.Matches before piece after) : 0 < piece.length :=
    List.length_pos_iff.mpr fun hNil => hSome _ _ (hNil ▸ hPiece)
  induction bound generalizing before rest with
  | nil =>
      obtain rfl : rest = [] := by simpa using hBound
      refine ⟨[], [], rfl, .done _ _, h, fun more after' hText hMore => ?_⟩
      exact absurd (List.append_eq_nil_iff.mp hText.symm).1 hMore
  | cons c bound ih =>
      simp only [repeatAlong] at h
      split at h
      · next found hFirst =>
          cases h
          obtain ⟨piece, middle, rfl, hPiece, hLater⟩ := run_sound p _ _ _ hFirst
          have hRoom : middle.length ≤ bound.length := by
            have hPieceLength := hLength hPiece
            simp only [List.length_append, List.length_cons] at hBound
            omega
          obtain ⟨others, after, rfl, hOthers, hAccept, hStop⟩ := ih hRoom hLater
          refine ⟨piece ++ others, after, (List.append_assoc ..).symm, .more hPiece hOthers, ?_, ?_⟩
          · rwa [Cursor.past_append]
          · rwa [List.getLast?_append, Option.or_assoc]
      · next hNone =>
          refine ⟨[], rest, rfl, .done _ _, h, fun more after' hText hMore hMatch => ?_⟩
          subst hText
          change Repeats _ before more after' at hMatch
          cases hMatch with
          | done => exact absurd rfl hMore
          | @more _ piece others _ first hOthers =>
              have hRoom : others.length ≤ bound.length := by
                have hPieceLength := hLength first
                simp only [List.length_append, List.length_cons] at hBound
                omega
              rw [Cursor.past_append, ← Option.not_isSome_iff_eq_none]
              intro hAccept
              -- one more step would have led to an answer
              have hTaken := run_complete p before piece (others ++ after')
                (fun next => repeatAlong (fun next resume => p.run next resume) bound next accept)
                first (repeatAlong_complete (fun _ _ _ _ => run_complete p _ _ _ _) hOthers accept
                  hAccept bound hRoom)
              rw [← List.append_assoc, hNone] at hTaken
              cases hTaken

/-- A repetition takes as much as it can before what follows is accepted. -/
theorem run_many_greedy {p : Pattern} (hSome : ∀ before after, ¬p.Matches before [] after)
    {before : Option Char} {rest : List Char} {accept : Cursor → Option β} {result : β}
    (h : (many p).run ⟨before, rest⟩ accept = some result) :
    ∃ taken after, rest = taken ++ after ∧ (many p).Matches before taken after ∧
      accept (Cursor.past before taken after) = some result ∧
      ∀ more after', after = more ++ after' → more ≠ [] →
        (many p).Matches (taken.getLast?.or before) more after' →
        accept (Cursor.past (taken.getLast?.or before) more after') = none :=
  repeatAlong_greedy hSome rest (Nat.le_refl _) h
/-- If all matches that are accepted lead to the same answer, that is found. -/
theorem run_eq_some {p : Pattern} {before : Option Char} {taken after : List Char}
    {accept : Cursor → Option β} {result : β} (hTaken : p.Matches before taken after)
    (hAccept : accept (Cursor.past before taken after) = some result)
    (hUnique : ∀ taken' after' result', taken ++ after = taken' ++ after' →
      p.Matches before taken' after' → accept (Cursor.past before taken' after') = some result' →
        result' = result) :
    p.run ⟨before, taken ++ after⟩ accept = some result := by
  have hSome := run_complete p before taken after accept hTaken (by rw [hAccept]; rfl)
  obtain ⟨result', hResult⟩ := Option.isSome_iff_exists.mp hSome
  obtain ⟨taken', after', hText, hTaken', hAccept'⟩ := run_sound p before _ accept hResult
  rw [hResult, hUnique taken' after' result' hText hTaken' hAccept']

/-- A pattern that matches nowhere finds nothing. -/
theorem run_eq_none_of_not_matches {p : Pattern} {before : Option Char} {rest : List Char}
    (h : ∀ taken after, rest = taken ++ after → ¬ p.Matches before taken after)
    (accept : Cursor → Option β) : p.run ⟨before, rest⟩ accept = none := by
  cases hRun : p.run ⟨before, rest⟩ accept with
  | none => rfl
  | some result =>
      obtain ⟨taken, after, hText, hTaken, -⟩ := run_sound p before rest accept hRun
      exact absurd hTaken (h taken after hText)

theorem run_all_cons (p : Pattern) (more : List Pattern) (place : Cursor)
    (accept : Cursor → Option β) :
    (all (p :: more)).run place accept = p.run place fun next => (all more).run next accept := by
  cases more with
  | nil => rfl
  | cons next more => rfl

/-- A repetition of characters takes as many as it can. -/
theorem run_many_one {accepts : Char → Bool} {before : Option Char} {taken after : List Char}
    {accept : Cursor → Option β} {result : β} (hTaken : ∀ c ∈ taken, accepts c = true)
    (hAfter : ∀ c ∈ after.head?, ¬accepts c = true)
    (hAccept : accept (Cursor.past before taken after) = some result) :
    (many (one accepts)).run ⟨before, taken ++ after⟩ accept = some result := by
  have hRepeat (bound : List Char) (hBound : taken.length ≤ bound.length) :
      repeatAlong (fun next resume => (one accepts).run next resume) bound
        ⟨before, taken ++ after⟩ accept = some result := by
    induction taken generalizing before bound with
    | nil =>
        have hStop (resume : Cursor → Option β) :
            (one accepts).run ⟨before, after⟩ resume = none := by
          cases after with
          | nil => rfl
          | cons c rest => simp [run, hAfter c rfl]
        cases bound with
        | nil => exact hAccept
        | cons c bound =>
            simp only [repeatAlong, List.nil_append, hStop]
            exact hAccept
    | cons c rest ih =>
        cases bound with
        | nil => simp at hBound
        | cons d bound =>
            obtain ⟨hc, hRest⟩ := List.forall_mem_cons.mp hTaken
            rw [← List.singleton_append, Cursor.past_append] at hAccept
            have hLater : repeatAlong (fun next resume => (one accepts).run next resume) bound
                ⟨some c, rest ++ after⟩ accept = some result :=
              ih hRest hAccept bound (by simpa using hBound)
            have hStep (resume : Cursor → Option β) :
                (one accepts).run ⟨before, c :: (rest ++ after)⟩ resume =
                  resume ⟨some c, rest ++ after⟩ := by simp [run, hc]
            simp only [repeatAlong, List.cons_append, hStep, hLater]
  exact hRepeat _ (by simp)

/-- Characters of a kind are taken up to the first other one. -/
theorem run_atLeastOnce_one {accepts : Char → Bool} {before : Option Char}
    {taken after : List Char} {accept : Cursor → Option β} {result : β} (hSome : taken ≠ [])
    (hTaken : ∀ c ∈ taken, accepts c = true) (hAfter : ∀ c ∈ after.head?, ¬accepts c = true)
    (hAccept : accept (Cursor.past before taken after) = some result) :
    (atLeastOnce (one accepts)).run ⟨before, taken ++ after⟩ accept = some result := by
  obtain ⟨c, rest, rfl⟩ := List.exists_cons_of_ne_nil hSome
  obtain ⟨hc, hRest⟩ := List.forall_mem_cons.mp hTaken
  rw [← List.singleton_append, Cursor.past_append] at hAccept
  have hMany := run_many_one hRest hAfter hAccept
  simpa [atLeastOnce, run, hc] using hMany

/-- Patterns commute with what is done to the answers. -/
theorem run_map {γ : Type} {accept : Cursor → Option β} {accept' : Cursor → Option γ} {f : γ → β}
    (h : ∀ place, accept place = (accept' place).map f) (p : Pattern) (place : Cursor) :
    p.run place accept = (p.run place accept').map f := by
  induction p generalizing place accept accept' with
  | nothing => exact h place
  | one accepts =>
      simp only [run]
      split
      · rfl
      · split
        · exact h _
        · rfl
  | wordEdge isWord =>
      simp only [run]
      split
      · exact h place
      · rfl
  | lineStart =>
      simp only [run]
      split
      · exact h place
      · rfl
  | textEnd =>
      simp only [run]
      split
      · exact h place
      · rfl
  | both first second ihFirst ihSecond => exact ihFirst (fun next => ihSecond h next) place
  | either first second ihFirst ihSecond =>
      simp only [run, ihFirst h place, ihSecond h place]
      cases first.run place accept' with
      | none => rfl
      | some result => rfl
  | many body ih =>
      have hRepeat (bound : List Char) (place : Cursor) :
          repeatAlong (fun next resume => body.run next resume) bound place accept =
            (repeatAlong (fun next resume => body.run next resume) bound place accept').map f := by
        induction bound generalizing place with
        | nil => exact h place
        | cons c bound ihBound =>
            simp only [repeatAlong, ih ihBound place, h place]
            cases body.run place fun next =>
                repeatAlong (fun next resume => body.run next resume) bound next accept' with
            | none => rfl
            | some result => rfl
      exact hRepeat place.rest place

end Run

section Shapes

variable {before : Option Char} {taken after : List Char}

/-- A sequence matches a match of its first pattern and, behind it, one of the others. -/
theorem matches_all_cons {p : Pattern} {more : List Pattern} :
    (all (p :: more)).Matches before taken after ↔
      ∃ front back, taken = front ++ back ∧ p.Matches before front (back ++ after) ∧
        (all more).Matches (front.getLast?.or before) back after := by
  cases more with
  | nil =>
      constructor
      · intro h
        exact ⟨taken, [], (List.append_nil taken).symm, h, rfl⟩
      · rintro ⟨front, back, rfl, h, rfl⟩
        rw [List.append_nil]
        exact h
  | cons next more => exact Iff.rfl

theorem matches_text {word : String} :
    (text word).Matches before taken after ↔ taken = word.toList := by
  unfold text
  induction word.toList generalizing before taken with
  | nil => exact Iff.rfl
  | cons c cs ih =>
      rw [List.map_cons, matches_all_cons]
      constructor
      · rintro ⟨front, back, rfl, ⟨d, rfl, hd⟩, hBack⟩
        rw [ih.mp hBack, decide_eq_true_iff.mp hd]
        rfl
      · rintro rfl
        exact ⟨[c], cs, rfl, ⟨c, rfl, by simp⟩, ih.mpr rfl⟩

/-- A repeated character matches texts of accepted characters. -/
theorem matches_many_one {accepts : Char → Bool} :
    (many (one accepts)).Matches before taken after ↔ ∀ c ∈ taken, accepts c = true := by
  constructor
  · intro h
    change Repeats _ before taken after at h
    induction h with
    | done => simp
    | more first others ih =>
        obtain ⟨c, rfl, hc⟩ := first
        simpa [hc] using ih
  · intro h
    induction taken generalizing before with
    | nil => exact .done before after
    | cons c rest ih =>
        change Repeats _ before ([c] ++ rest) after
        refine .more ⟨c, rfl, h c List.mem_cons_self⟩ (ih fun d hd => ?_)
        exact h d (List.mem_cons_of_mem c hd)

theorem matches_atLeastOnce_one {accepts : Char → Bool} :
    (atLeastOnce (one accepts)).Matches before taken after ↔
      taken ≠ [] ∧ ∀ c ∈ taken, accepts c = true := by
  constructor
  · rintro ⟨front, back, rfl, ⟨c, rfl, hc⟩, hBack⟩
    refine ⟨by simp, ?_⟩
    simpa [hc] using matches_many_one.mp hBack
  · rintro ⟨hTaken, hAll⟩
    cases taken with
    | nil => exact absurd rfl hTaken
    | cons c rest =>
        refine ⟨[c], rest, rfl, ⟨c, rfl, hAll c List.mem_cons_self⟩, matches_many_one.mpr ?_⟩
        exact fun d hd => hAll d (List.mem_cons_of_mem c hd)

theorem matches_optional {p : Pattern} :
    (optional p).Matches before taken after ↔ p.Matches before taken after ∨ taken = [] :=
  Iff.rfl

/-- An alternative matches only what one of its patterns does. -/
theorem exists_of_matches_anyOf {ps : List Pattern} (h : (anyOf ps).Matches before taken after) :
    ∃ p ∈ ps, p.Matches before taken after := by
  induction ps with
  | nil =>
      obtain ⟨c, _, hc⟩ := h
      cases hc
  | cons p more ih =>
      cases more with
      | nil => exact ⟨p, List.mem_singleton_self p, h⟩
      | cons next more =>
          rcases h with hFirst | hMore
          · exact ⟨p, List.mem_cons_self, hFirst⟩
          · obtain ⟨q, hq, hMatch⟩ := ih hMore
            exact ⟨q, List.mem_cons_of_mem p hq, hMatch⟩

theorem matches_anyOf {ps : List Pattern} {p : Pattern} (hMem : p ∈ ps)
    (h : p.Matches before taken after) : (anyOf ps).Matches before taken after := by
  induction ps with
  | nil => cases hMem
  | cons first more ih =>
      cases more with
      | nil =>
          cases List.mem_singleton.mp hMem
          exact h
      | cons next more =>
          rcases List.mem_cons.mp hMem with rfl | hLater
          · exact .inl h
          · exact .inr (ih hLater)

end Shapes

/-- A search ends at the first place if it succeeds there. -/
theorem firstAt_of_some {β : Type} {attempt : Cursor → Option β} {before : Option Char}
    {cs : List Char} {result : β} (h : attempt ⟨before, cs⟩ = some result) :
    Cursor.firstAt attempt before cs = some result := by
  cases cs with
  | nil => exact h
  | cons c rest => simp only [Cursor.firstAt, h]

/-- What a search finds stands at some place, and nothing is found at the places before it. -/
theorem exists_of_firstAt {β : Type} {attempt : Cursor → Option β} {before : Option Char}
    {cs : List Char} {result : β} (h : Cursor.firstAt attempt before cs = some result) :
    ∃ front back, cs = front ++ back ∧ attempt (Cursor.past before front back) = some result ∧
      ∀ earlier c between, front = earlier ++ c :: between →
        attempt (Cursor.past before earlier (c :: (between ++ back))) = none := by
  induction cs generalizing before with
  | nil => exact ⟨[], [], rfl, h, by simp⟩
  | cons c rest ih =>
      rw [Cursor.firstAt] at h
      split at h
      · next found hFound =>
          cases h
          exact ⟨[], c :: rest, rfl, hFound, by simp⟩
      · next hNone =>
          obtain ⟨front, back, rfl, hFound, hEarlier⟩ := ih h
          refine ⟨[c] ++ front, back, rfl, by rwa [Cursor.past_append], ?_⟩
          intro earlier d between hFront
          cases earlier with
          | nil =>
              obtain ⟨rfl, rfl⟩ := List.cons.inj hFront
              exact hNone
          | cons e earlier =>
              obtain ⟨rfl, rfl⟩ := List.cons.inj hFront
              rw [← List.singleton_append, Cursor.past_append]
              exact hEarlier earlier d between rfl

/-- A search finds something if some place of the text has it. -/
theorem firstAt_isSome_iff {β : Type} (attempt : Cursor → Option β) (before : Option Char)
    (cs : List Char) :
    (Cursor.firstAt attempt before cs).isSome ↔
      ∃ front back, cs = front ++ back ∧ (attempt (Cursor.past before front back)).isSome := by
  induction cs generalizing before with
  | nil =>
      constructor
      · intro h
        exact ⟨[], [], rfl, h⟩
      · rintro ⟨front, back, hEmpty, h⟩
        obtain ⟨rfl, rfl⟩ := List.append_eq_nil_iff.mp hEmpty.symm
        exact h
  | cons c rest ih =>
      simp only [Cursor.firstAt]
      split
      · next found hFound =>
          refine iff_of_true rfl ⟨[], c :: rest, rfl, ?_⟩
          rw [Cursor.past_nil, hFound]
          rfl
      · next hNone =>
          rw [ih]
          constructor
          · rintro ⟨front, back, rfl, h⟩
            refine ⟨[c] ++ front, back, rfl, ?_⟩
            rwa [Cursor.past_append]
          · rintro ⟨front, back, hRest, h⟩
            cases front with
            | nil =>
                obtain rfl : back = c :: rest := hRest.symm
                rw [Cursor.past_nil, hNone] at h
                cases h
            | cons d front =>
                obtain ⟨rfl, rfl⟩ := List.cons.inj hRest
                rw [← List.singleton_append, Cursor.past_append] at h
                exact ⟨front, back, rfl, h⟩

/-- A pattern occurs in a text if it matches some part of it. -/
theorem occursIn_iff (p : Pattern) (cs : List Char) :
    p.occursIn cs = true ↔ ∃ front taken after, cs = front ++ (taken ++ after) ∧
      p.Matches front.getLast? taken after := by
  have hEnds (before : Option Char) (rest : List Char) : (p.endAt? ⟨before, rest⟩).isSome ↔
      ∃ taken after, rest = taken ++ after ∧ p.Matches before taken after := by
    constructor
    · intro h
      obtain ⟨stop, hStop⟩ := Option.isSome_iff_exists.mp h
      obtain ⟨taken, after, hRest, hTaken, _⟩ := p.run_sound before rest some hStop
      exact ⟨taken, after, hRest, hTaken⟩
    · rintro ⟨taken, after, rfl, hTaken⟩
      exact p.run_complete before taken after some hTaken rfl
  unfold occursIn Cursor.findFirst Cursor.start
  rw [firstAt_isSome_iff]
  simp only [Cursor.past, hEnds, Option.or_none]
  constructor
  · rintro ⟨front, back, rfl, taken, after, rfl, h⟩
    exact ⟨front, taken, after, rfl, h⟩
  · rintro ⟨front, taken, after, rfl, h⟩
    exact ⟨front, _, rfl, taken, after, rfl, h⟩

end Pattern

end SignatureIndex.Text
