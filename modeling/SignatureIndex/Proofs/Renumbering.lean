import SignatureIndex.Proofs.LogicalLine

/-! Line numbers are told and decide nothing. A scan of the same lines under other numbers goes
through the same states, finds the same signatures and tells the same events, each with the number
that its line now has. -/
namespace SignatureIndex

/-- A change of line numbers: of the numbers that a scan counts with, and of those that signatures
carry. -/
structure Renumbering where
  number : Nat → Nat
  carried : Int → Int
  carried_number : ∀ n : Nat, carried n = number n

namespace Renumbering

/-- All lines stand that many lines further down. -/
def shift (count : Nat) : Renumbering where
  number n := n + count
  carried n := n + count
  carried_number _ := rfl

/-- The lines behind the first so many stand one line further down. -/
def insertion (count : Nat) : Renumbering where
  number n := if count < n then n + 1 else n
  carried n := if (count : Int) < n then n + 1 else n
  carried_number n := by
    split <;> split <;> omega

theorem number_of_le {count n : Nat} (h : n ≤ count) : (insertion count).number n = n :=
  if_neg (Nat.not_lt.mpr h)

theorem number_of_lt {count n : Nat} (h : count < n) : (insertion count).number n = n + 1 :=
  if_pos h

end Renumbering

/-- The signature with the line number that it has after a change. -/
def Signature.renumbered (change : Renumbering) (signature : Signature) : Signature :=
  { signature with line := signature.line.map change.carried }

namespace Scan

/-- The event with the line number that it has after a change. -/
def Event.renumbered (change : Renumbering) : Event → Event
  | started source => started source
  | header line type => header (change.number line) type
  | elseIf line text => elseIf (change.number line) text
  | outsideMembers line depth text => outsideMembers (change.number line) depth text
  | partialDeclaration line text => partialDeclaration (change.number line) text
  | reservedName name line text => reservedName name (change.number line) text
  | opened line depth => opened (change.number line) depth
  | closed line depth => closed (change.number line) depth
  | left line type => left (change.number line) type
  | found label line depth => found label (change.number line) depth
  | unterminated line => unterminated (change.number line)
  | finished functions source => finished functions source

def renumberedLine (change : Renumbering) (line : Line) : Line :=
  (change.number line.1, line.2)

/-- The waiting lines under their new number. -/
def Pending.renumbered (change : Renumbering) (pending : Pending) : Pending :=
  ⟨change.number pending.line, pending.text⟩

/-- The outcome under new numbers; what is left for the next script has no lines. -/
def Outcome.renumbered (change : Renumbering) (outcome : Outcome) : Outcome where
  signatures := outcome.signatures.map (·.renumbered change)
  state := outcome.state
  events := outcome.events.map (·.renumbered change)

section Reading

variable (change : Renumbering) (source : Option String)

/-- Following braces tells the same under the new numbers. -/
theorem followBraces_renumbered (line : Nat) (state : State) (text : List Char) :
    followBraces (change.number line) state text =
      ((followBraces line state text).1,
        (followBraces line state text).2.map (·.renumbered change)) := by
  induction text generalizing state with
  | nil => rfl
  | cons c rest ih =>
      rw [followBraces, followBraces]
      split
      · simp [ih, Event.renumbered]
      · split
        · simp only [ih, List.map_cons, List.map_append, Event.renumbered]
          congr 3
          cases (if state.depth - 1 = 0 then state.enclosing else none) <;> rfl
        · exact ih state

/-- A signature is extracted with its new number. -/
theorem extract_renumbered (text : List Char) (enclosing : Option Enclosing) (line : Nat) :
    Signature.extract text enclosing source (some ((change.number line : Nat) : Int)) =
      (Signature.extract text enclosing source (some (line : Int))).map
        (·.renumbered change) := by
  rw [← change.carried_number]
  unfold Signature.extract
  split
  · rfl
  · split
    · rfl
    · rfl

/-- A member is read the same under its new number. -/
theorem readMember_renumbered (text : List Char) (line : Nat) (enclosing : Option Enclosing) :
    readMember text (change.number line) enclosing source =
      ((readMember text line enclosing source).1.map (·.renumbered change),
        (readMember text line enclosing source).2.map (·.renumbered change)) := by
  unfold readMember
  rw [extract_renumbered]
  split
  · rfl
  · cases Signature.extract text enclosing source (some (line : Int)) with
    | ok signature => rfl
    | error rejection =>
        cases rejection with
        | reserved name => rfl
        | noDeclaration =>
            show (none, if isCallShaped text then _ else _) = _
            split <;> rfl

/-- A logical line is read in the same way under every number. -/
theorem readLogicalLine_renumbered (state : State) (line : Nat) (text : List Char) :
    readLogicalLine state (change.number line) text source =
      (readLogicalLine state line text source).renumbered change := by
  have hHeader (header : Option Enclosing) :
      (header.map (Event.header (change.number line))).toList =
        (header.map (Event.header line)).toList.map (·.renumbered change) := by
    cases header <;> rfl
  have hFound (signature : Option Signature) (depth : Nat) :
      ((signature.map (·.renumbered change)).map fun found =>
          Event.found found.label (change.number line) depth).toList =
        (signature.map fun found => Event.found found.label line depth).toList.map
          (·.renumbered change) := by
    cases signature <;> rfl
  unfold readLogicalLine Outcome.renumbered
  by_cases hDepth : state.depth = memberDepth
  · simp only [hDepth, if_true, readMember_renumbered, followBraces_renumbered, hHeader, hFound,
      List.map_append, Option.toList_map]
  · simp only [hDepth, if_false, followBraces_renumbered, hHeader, List.map_append]
    rfl

/-- A waiting statement keeps the new number of its first line. -/
theorem extend_renumbered (pending : Option Pending) (line : Line) :
    Pending.extend (pending.map (·.renumbered change)) (change.number line.1) line.2 =
      (Pending.extend pending line.1 line.2).renumbered change := by
  cases pending <;> rfl

/-- Lines are read in the same way under all numbers. -/
theorem readLines_renumbered (state : State) (pending : Option Pending) (lines : List Line) :
    readLines source state (pending.map (·.renumbered change))
        (lines.map (renumberedLine change)) =
      (readLines source state pending lines).renumbered change := by
  induction lines generalizing state pending with
  | nil => cases pending <;> rfl
  | cons line rest ih =>
      rw [List.map_cons, renumberedLine, readLines, readLines, extend_renumbered]
      split
      · exact ih state (some (Pending.extend pending line.1 line.2))
      · have hRest := ih (readLogicalLine state (Pending.extend pending line.1 line.2).line
          (Pending.extend pending line.1 line.2).text source).state none
        rw [Option.map_none] at hRest
        simp only [Pending.renumbered, readLogicalLine_renumbered]
        simp only [Outcome.renumbered, hRest, List.map_append]

end Reading

section Numbering

open Text

/-- Lines trimmed and numbered from a number on, without those that are blank. -/
def numberedFrom (first : Nat) (lines : List (List Char)) : List Line :=
  ((lines.zipIdx first).map fun entry => (entry.2, trim entry.1)).filter fun line =>
    !line.2.isEmpty

/-- The lines of a script are numbered from one on. -/
theorem numberedLines_eq_numberedFrom (script : List Char) :
    numberedLines script = numberedFrom 1 (List.splitOn '\n' (Source.stripComments script)) := by
  have hNumbers :=
    List.zipIdx_eq_map_add (l := List.splitOn '\n' (Source.stripComments script)) (i := 1)
  rw [numberedLines, numberedFrom, List.mapIdx_eq_zipIdx_map, hNumbers, List.map_map]
  simp [Function.comp_def, Nat.add_comm]

theorem numberedFrom_cons (first : Nat) (line : List Char) (rest : List (List Char)) :
    numberedFrom first (line :: rest) =
      (if trim line = [] then [] else [(first, trim line)]) ++ numberedFrom (first + 1) rest := by
  rw [numberedFrom, List.zipIdx_cons, List.map_cons, List.filter_cons]
  split
  · next hSome => simp_all [numberedFrom]
  · next hNone => simp_all [numberedFrom]

theorem numberedFrom_append (first : Nat) (above below : List (List Char)) :
    numberedFrom first (above ++ below) =
      numberedFrom first above ++ numberedFrom (first + above.length) below := by
  simp [numberedFrom, List.zipIdx_append]

/-- Lines keep their texts and get their new numbers, if the change moves each one as far. -/
theorem numberedFrom_renumbered (change : Renumbering) {first first' : Nat}
    {lines : List (List Char)}
    (h : ∀ index < lines.length, change.number (first + index) = first' + index) :
    (numberedFrom first lines).map (renumberedLine change) = numberedFrom first' lines := by
  induction lines generalizing first first' with
  | nil => rfl
  | cons line rest ih =>
      have hFirst : change.number first = first' := by simpa using h 0
      have hRest := @ih (first + 1) (first' + 1) fun index hIndex => by
        rw [Nat.add_assoc, Nat.add_comm 1 index, h (index + 1) (by simpa using hIndex)]
        omega
      rw [numberedFrom_cons, numberedFrom_cons, List.map_append, hRest]
      split
      · rfl
      · rw [List.map_singleton, renumberedLine, hFirst]

end Numbering

end Scan

end SignatureIndex
