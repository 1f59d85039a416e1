import SignatureIndex.Text.Letter

/-! Patterns over text with ordered choice: of several ways to match, the first in the
pattern's own order wins, and a match is looked for at the leftmost place where there is one.
A pattern is run with a continuation, which says whether the rest of the text suits; a refused
way is taken back and the next one is tried. -/
namespace SignatureIndex.Text

/-- A place in a text: the character just before it, and the characters after it. -/
structure Cursor where
  before : Option Char
  rest : List Char
  deriving DecidableEq

namespace Cursor

def start (text : List Char) : Cursor :=
  ⟨none, text⟩

/-- The text between a place and a later one. -/
def upTo (first last : Cursor) : List Char :=
  first.rest.take (first.rest.length - last.rest.length)

/-- The first place from `before` on whose next character is not in a class. -/
def skipFrom (skipped : Char → Bool) (before : Option Char) : List Char → Cursor
  | [] => ⟨before, []⟩
  | c :: rest => if skipped c then skipFrom skipped (some c) rest else ⟨before, c :: rest⟩

/-- The first place from this one on whose next character is not in a class. -/
def skip (place : Cursor) (skipped : Char → Bool) : Cursor :=
  skipFrom skipped place.before place.rest

/-- Tries `attempt` at every place from `before` on, leftmost first. -/
def firstAt {β : Type} (attempt : Cursor → Option β) (before : Option Char) :
    List Char → Option β
  | [] => attempt ⟨before, []⟩
  | c :: rest =>
    match attempt ⟨before, c :: rest⟩ with
    | some result => some result
    | none => firstAt attempt (some c) rest

/-- The first success of `attempt` at this place or a later one. -/
def findFirst {β : Type} (place : Cursor) (attempt : Cursor → Option β) : Option β :=
  firstAt attempt place.before place.rest

/-- The successes of `attempt` that do not overlap, from left to right. An attempt yields a
value and the place where it ends; one that ends where it began is the last. -/
def findAll {β : Type} (place : Cursor) (attempt : Cursor → Option (β × Cursor)) : List β :=
  match place.findFirst attempt with
  | none => []
  | some (value, stop) =>
    if stop.rest.length < place.rest.length then value :: findAll stop attempt else [value]
termination_by place.rest.length

end Cursor

inductive Pattern where
  /-- Nothing at all. -/
  | nothing
  /-- One character of a class. -/
  | one (accepts : Char → Bool)
  /-- A place where a word starts or ends. -/
  | wordEdge (isWord : Char → Bool)
  /-- The start of the text or of a line. -/
  | lineStart
  /-- The end of the text, or the place before a line feed that ends it. -/
  | textEnd
  /-- The first pattern and then the second. -/
  | both (first second : Pattern)
  /-- The first pattern or, failing that, the second. -/
  | either (first second : Pattern)
  /-- The pattern repeated, as often as possible first. -/
  | many (body : Pattern)

namespace Pattern

/-- Repeats a step at most once for each character of `bound`, more repetitions first. -/
def repeatAlong {β : Type} (step : Cursor → (Cursor → Option β) → Option β) :
    List Char → Cursor → (Cursor → Option β) → Option β
  | [], place, accept => accept place
  | _ :: bound, place, accept =>
    match step place fun next => repeatAlong step bound next accept with
    | some result => some result
    | none => accept place

/-- Runs a pattern at a place and gives the first answer of `accept` over the places where the
pattern can end. A repetition is bounded by the characters left. -/
def run {β : Type} : Pattern → Cursor → (Cursor → Option β) → Option β
  | nothing, place, accept => accept place
  | one accepts, place, accept =>
    match place.rest with
    | [] => none
    | c :: rest => if accepts c then accept ⟨some c, rest⟩ else none
  | wordEdge isWord, place, accept =>
    if isBoundary isWord place.before place.rest.head? then accept place else none
  | lineStart, place, accept =>
    if place.before = none ∨ place.before = some '\n' then accept place else none
  | textEnd, place, accept =>
    if place.rest = [] ∨ place.rest = ['\n'] then accept place else none
  | both first second, place, accept => first.run place fun next => second.run next accept
  | either first second, place, accept =>
    match first.run place accept with
    | some result => some result
    | none => second.run place accept
  | many body, place, accept =>
    repeatAlong (fun next resume => body.run next resume) place.rest place accept

/-- A repetition finds nothing if its step finds nothing and nothing further on is accepted. -/
theorem repeatAlong_eq_none {β : Type} {step : Cursor → (Cursor → Option β) → Option β}
    (hStep : ∀ place accept, (∀ stop : Cursor, stop.rest <:+ place.rest → accept stop = none) →
      step place accept = none)
    (bound : List Char) (place : Cursor) (accept : Cursor → Option β)
    (hAccept : ∀ stop : Cursor, stop.rest <:+ place.rest → accept stop = none) :
    repeatAlong step bound place accept = none := by
  induction bound generalizing place with
  | nil => exact hAccept place (List.suffix_refl _)
  | cons c bound ih =>
      have hNext : step place (fun next => repeatAlong step bound next accept) = none :=
        hStep place _ fun next hNext =>
          ih next fun stop hStop => hAccept stop (hStop.trans hNext)
      simp only [repeatAlong, hNext]
      exact hAccept place (List.suffix_refl _)

/-- A pattern finds nothing if nothing is accepted at the place or further on. -/
theorem run_eq_none {β : Type} (p : Pattern) (place : Cursor) (accept : Cursor → Option β)
    (hAccept : ∀ stop : Cursor, stop.rest <:+ place.rest → accept stop = none) :
    p.run place accept = none := by
  induction p generalizing place accept with
  | nothing => exact hAccept place (List.suffix_refl _)
  | one accepts =>
      simp only [run]
      split
      · rfl
      · next c rest h =>
          split
          · exact hAccept ⟨some c, rest⟩ (h ▸ List.suffix_cons c rest)
          · rfl
  | wordEdge isWord =>
      simp only [run]
      split
      · exact hAccept place (List.suffix_refl _)
      · rfl
  | lineStart =>
      simp only [run]
      split
      · exact hAccept place (List.suffix_refl _)
      · rfl
  | textEnd =>
      simp only [run]
      split
      · exact hAccept place (List.suffix_refl _)
      · rfl
  | both first second ihFirst ihSecond =>
      exact ihFirst place _ fun next hNext =>
        ihSecond next accept fun stop hStop => hAccept stop (hStop.trans hNext)
  | either first second ihFirst ihSecond =>
      simp only [run, ihFirst place accept hAccept]
      exact ihSecond place accept hAccept
  | many body ih =>
      exact repeatAlong_eq_none (fun next resume h => ih next resume h) _ place accept hAccept

/-- A character is matched where it comes next. -/
theorem run_char_eq_none {β : Type} (c : Char) (place : Cursor) (accept : Cursor → Option β)
    (hAccept : ∀ rest, place.rest = c :: rest → accept ⟨some c, rest⟩ = none) :
    (one (· = c)).run place accept = none := by
  simp only [run]
  split
  · rfl
  · next d rest hRest =>
      by_cases hd : d = c
      · simp [hd, hAccept rest (hd ▸ hRest)]
      · simp [hd]

def all : List Pattern → Pattern
  | [] => nothing
  | [p] => p
  | p :: more => both p (all more)

def anyOf : List Pattern → Pattern
  | [] => one fun _ => false
  | [p] => p
  | p :: more => either p (anyOf more)

def text (word : String) : Pattern :=
  all (word.toList.map fun c => one (· = c))

def atLeastOnce (p : Pattern) : Pattern :=
  both p (many p)

/-- The pattern once if possible, else nothing. -/
def optional (p : Pattern) : Pattern :=
  either p nothing

/-- The place where the pattern ends when it is matched at the given place. -/
def endAt? (p : Pattern) (place : Cursor) : Option Cursor :=
  p.run place some

def occursIn (p : Pattern) (cs : List Char) : Bool :=
  ((Cursor.start cs).findFirst p.endAt?).isSome

end Pattern

end SignatureIndex.Text
