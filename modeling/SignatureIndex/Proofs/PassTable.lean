import SignatureIndex.Proofs.Pass
import SignatureIndex.Proofs.Table

/-! What a pass over a project stores does not depend on the table it starts with: the pass finds
some signatures, reads the same files and ends in the same way, and whatever the table was, these
signatures are stored in it one after the other. -/
namespace SignatureIndex.Project

def Pass.withTable (pass : Pass) (table : Table) : Pass :=
  { pass with table }

theorem Pass.miss_withTable (pass : Pass) (table : Table) (task : Task) :
    (pass.withTable table).miss task = (pass.miss task).withTable table := by
  cases task <;> rfl

section Run

variable {env : Environment} {root : Path}

/-- A step is taken with every table, and stores the same signatures in it. -/
theorem Step.withTable {earlier later : Moment} (h : Step env root earlier later) :
    ∃ found, ∀ table, Step env root (earlier.1.withTable table, earlier.2)
      (later.1.withTable (table.storeAll found), later.2) := by
  cases h with
  | @miss pass task rest hPath =>
      refine ⟨[], fun table => ?_⟩
      change Step env root _ ((pass.miss task).withTable table, rest)
      rw [← Pass.miss_withTable]
      exact .miss hPath
  | skip hPath hReal hVisited => exact ⟨[], fun _ => .skip hPath hReal hVisited⟩
  | @read pass task rest path real script hPath hReal hNew hRead =>
      exact ⟨Scan.signatures script.toList (some path.toString),
        fun _ => .read hPath hReal hNew hRead⟩

/-- A failure does not depend on the table. -/
theorem Fails.withTable {moment : Moment} {final : Pass} {failure : Failure}
    (h : Fails env root moment final failure) (table : Table) :
    Fails env root (moment.1.withTable table, moment.2) (final.withTable table) failure := by
  cases h with
  | find hPath => exact .find hPath
  | resolve hPath hReal => exact .resolve hPath hReal
  | read hPath hReal hNew hRead => exact .read hPath hReal hNew hRead

/-- Reading goes on in the same way with every table, and stores the same signatures. -/
theorem run_storeAll (moment : Moment) :
    ∃ found, ∀ table, run env root (moment.1.withTable table) moment.2 =
      ((run env root moment.1 moment.2).1.withTable (table.storeAll found),
        (run env root moment.1 moment.2).2) := by
  induction moment using (step_wellFounded env root).induction with
  | h moment ih =>
      obtain ⟨pass, tasks⟩ := moment
      cases tasks with
      | nil =>
          refine ⟨[], fun table => ?_⟩
          rw [run, run]
          rfl
      | cons task rest =>
          rcases step_or_fails env root pass task rest with ⟨later, hStep⟩ | ⟨_, _, hFails⟩
          · obtain ⟨first, hFirst⟩ := hStep.withTable
            obtain ⟨others, hOthers⟩ := ih later hStep
            refine ⟨first ++ others, fun table => ?_⟩
            rw [run_eq_of_step hStep, run_eq_of_step (hFirst table), Table.storeAll_append]
            exact hOthers (table.storeAll first)
          · refine ⟨[], fun table => ?_⟩
            rw [run_eq_of_fails hFails, run_eq_of_fails (hFails.withTable table)]
            rfl

end Run

/-- A pass over a project ends in the same way with every table, and stores the same signatures. -/
theorem parse_storeAll (env : Environment) (root : Path) (visited : List Place) :
    ∃ found, ∀ table, parse env root table visited =
      ((parse env root .empty visited).1.withTable (table.storeAll found),
        (parse env root .empty visited).2) := by
  cases hLumps : rootLumps env root with
  | error failure =>
      refine ⟨[], fun table => ?_⟩
      simp only [parse, hLumps]
      rfl
  | ok lumps =>
      obtain ⟨found, hFound⟩ := run_storeAll (.initial .empty visited, lumps.map .read)
      refine ⟨found, fun table => ?_⟩
      have hRun := hFound table
      change run env root (.initial table visited) _ = _ at hRun
      simp only [parse, hLumps, hRun]
      cases hEmpty : run env root (.initial .empty visited) (lumps.map .read) with
      | mk final failure? =>
          cases failure? with
          | none => rfl
          | some failure => rfl

end SignatureIndex.Project
