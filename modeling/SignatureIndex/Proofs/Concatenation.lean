import SignatureIndex.Proofs.Reflow
import SignatureIndex.Proofs.Renumbering

/-! Scripts one below the other. Reading depends on line numbers only in that they are told: lines
further down give the same outcome with all numbers moved. So a script that leaves neither a comment
nor a statement open can be read by itself, and what stands below it goes on from the state that it
leaves. -/
namespace SignatureIndex

namespace Scan

open Text

namespace Outcome

/-- The outcome of lines and of those below them. -/
def andThen (first second : Outcome) : Outcome where
  signatures := first.signatures ++ second.signatures
  state := second.state
  events := first.events ++ second.events

/-- Outcomes of lines can be put together in any grouping. -/
theorem andThen_assoc (first second third : Outcome) :
    (first.andThen second).andThen third = first.andThen (second.andThen third) := by
  simp [andThen]

end Outcome

section Below

variable {state : State} {lines left : List Line} {groups : List (List Line)}
  {source : Option String}

/-- Lines that leave no statement open are read by themselves, and those below them after that. -/
theorem readLines_append (h : Segmentation state.depth lines groups []) (rest : List Line) :
    readLines source state none (lines ++ rest) =
      (readLines source state none lines).andThen
        (readLines source (readLines source state none lines).state none rest) := by
  induction groups generalizing state lines with
  | nil =>
      have hLines : lines = [] := h.covers
      rw [hLines]
      simp [readLines, Outcome.andThen]
  | cons group groups ih =>
      let first := readLogicalLine state (firstNumber group) (joined group) source
      have hState : first.state = _ := readLogicalLine_state state group source
      have hTail : Segmentation first.state.depth groups.flatten groups [] := by
        rw [hState]
        simpa using h.tail
      have hLines : lines = group ++ groups.flatten := by
        rw [h.covers, List.append_nil, List.flatten_cons]
      have hRead (more : List Line) : readLines source state none (group ++ more) =
          first.andThen (readLines source first.state none more) :=
        readLines_group source state more h.head
      rw [hLines, List.append_assoc, hRead, hRead, ih hTail, Outcome.andThen_assoc]
      rfl

/-- A statement that is left open is told. -/
theorem left_eq_nil (h : Segmentation state.depth lines groups left)
    (hTold : ∀ number, .unterminated number ∉ (readLines source state none lines).events) :
    left = [] := by
  induction groups generalizing state lines with
  | nil =>
      cases hLeft : left with
      | nil => rfl
      | cons first more =>
          rw [hLeft] at h
          obtain ⟨hDepth, hOpen⟩ := h.unterminated (by simp)
          have hRead := readLines_waiting source state [] (first :: more) [] (by
            intro line hLine
            exact (continues_iff _ _).mpr ⟨hDepth, hOpen line hLine⟩)
          rw [List.append_nil, List.nil_append] at hRead
          apply absurd _ (hTold first.1)
          rw [h.covers, List.flatten_nil, List.nil_append]
          show _ ∈ (readLines source state (pendingOf []) (first :: more)).events
          rw [hRead]
          simp [pendingOf, readLines]
  | cons group groups ih =>
      let first := readLogicalLine state (firstNumber group) (joined group) source
      have hState : first.state = _ := readLogicalLine_state state group source
      have hTail : Segmentation first.state.depth (groups.flatten ++ left) groups left := by
        rw [hState]
        exact h.tail
      apply ih hTail
      intro number hNumber
      apply hTold number
      rw [h.covers, List.flatten_cons, List.append_assoc, readLines_group source state _ h.head]
      exact List.mem_append_right _ hNumber

end Below

/-- The lines of a script below another one that leaves no comment open. -/
theorem numberedLines_append {first : List Char} (h : Source.BlocksClosed first)
    (second : List Char) :
    numberedLines (first ++ '\n' :: second) = numberedLines first ++
      (numberedLines second).map (renumberedLine (.shift (List.splitOn '\n' first).length)) := by
  let count := (List.splitOn '\n' first).length
  have hCount : (List.splitOn '\n' (Source.stripComments first)).length = count := by
    rw [length_splitOn, Source.stripComments_count, ← length_splitOn]
  have hBelow : (numberedFrom 1 (List.splitOn '\n' (Source.stripComments second))).map
      (renumberedLine (.shift count)) = _ :=
    numberedFrom_renumbered (.shift count) fun index _ => Nat.add_right_comm 1 index count
  rw [numberedLines_eq_numberedFrom, numberedLines_eq_numberedFrom, numberedLines_eq_numberedFrom,
    Source.stripComments_append_feed h, List.splitOn_append_cons_self, numberedFrom_append, hCount,
    ← hBelow]

/-- Reading is compositional. Below a script that closes its block comments and leaves no statement
open, a second script is read as it would be by itself after the first: the signatures of the first
come before those of the second, whose lines lie as many lines further down as the first script has,
and the state at the end is the one that the second script leaves. -/
theorem readScript_append (state : State) (first second : List Char) (source : Option String)
    (hClosed : Source.BlocksClosed first)
    (hEnded : ∀ number, .unterminated number ∉ (readScript state first source).events) :
    let count := (List.splitOn '\n' first).length
    let before := readScript state first source
    let after := readScript before.state second source
    let whole := readScript state (first ++ '\n' :: second) source
    whole.signatures = before.signatures ++ after.signatures.map (·.renumbered (.shift count)) ∧
      whole.state = after.state ∧
      whole.events = before.events ++ after.events.map (·.renumbered (.shift count)) := by
  intro count before after whole
  obtain ⟨groups, left, hSegments⟩ :=
    Segmentation.exists_of_waiting state.depth [] (numberedLines first) (by simp)
  rw [List.nil_append] at hSegments
  rw [left_eq_nil hSegments hEnded] at hSegments
  have hAfter : readLines source before.state none
      ((numberedLines second).map (renumberedLine (.shift count))) =
        after.renumbered (.shift count) :=
    readLines_renumbered (.shift count) source before.state none (numberedLines second)
  have hWhole : whole = before.andThen (after.renumbered (.shift count)) := by
    rw [← hAfter]
    show readLines source state none (numberedLines (first ++ '\n' :: second)) = _
    rw [numberedLines_append hClosed, readLines_append hSegments]
    rfl
  rw [hWhole]
  exact ⟨rfl, rfl, rfl⟩

/-- A type whose body is cut between two members, below a comment over two lines. -/
theorem readScript_append_of_cut_body :
    let first := "class A /* a\ntype */\n\x7b\n  int F();".toList
    let second := "  void G(int a);\n\x7d".toList
    let before := readScript .initial first none
    let after := readScript before.state second none
    let whole := readScript .initial (first ++ '\n' :: second) none
    Source.BlocksClosed first ∧ (∀ number, .unterminated number ∉ before.events) ∧
      before.state = ⟨1, some ⟨.classType, "A"⟩, 3⟩ ∧
      after.signatures.map (·.line) = [some 1] ∧
      whole.signatures = before.signatures ++ after.signatures.map (·.renumbered (.shift 4)) ∧
      whole.signatures.map (·.line) = [some 4, some 5] ∧ whole.state = ⟨0, none, 5⟩ := by
  intro first second before after whole
  have hParts : first = "class A ".toList ++ '/' :: '*' :: (" a\ntype ".toList ++
      '*' :: '/' :: "\n\x7b\n  int F();".toList) := by decide +kernel
  have hClosed : Source.BlocksClosed first := by
    rw [hParts]
    exact .block (by decide +kernel) (by decide +kernel) (.outside (by decide +kernel))
  have hEnded : ∀ number, .unterminated number ∉ before.events := by
    have hEvents : before.events.all (fun
      | .unterminated _ => false
      | _ => true) = true := by decide +kernel
    intro number hMem
    exact absurd (List.all_eq_true.mp hEvents _ hMem) (by simp)
  obtain ⟨hSignatures, hState, -⟩ := readScript_append .initial first second none hClosed hEnded
  have hAfter : after.signatures.map (·.line) = [some 1] := by decide +kernel
  refine ⟨hClosed, hEnded, by decide +kernel, hAfter, hSignatures, ?_, ?_⟩
  · show (readScript .initial (first ++ '\n' :: second) none).signatures.map (·.line) = _
    rw [hSignatures]
    decide +kernel
  · show (readScript .initial (first ++ '\n' :: second) none).state = _
    rw [hState]
    decide +kernel

end Scan

end SignatureIndex
