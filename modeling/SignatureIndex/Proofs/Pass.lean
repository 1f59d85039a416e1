import Mathlib.Data.List.Basic
import Mathlib.Logic.Relation
import SignatureIndex.Project
import SignatureIndex.Proofs.FileTree
import SignatureIndex.Proofs.Path

/-! A pass over a project, step by step. A step takes the first task that is left: its file is
missing, or was visited before, or is read, and then its include directives become the next tasks.
No pass goes on forever, since each file read is one place less that was not visited. A pass that
ends without a failure has read each file once and every file that a directive names. -/
namespace SignatureIndex.Project

/-- A pass and the tasks that it has left. -/
abbrev Moment := Pass × List Task

/-- One step of a pass. Where a task fails there is no step. -/
inductive Step (env : Environment) (root : Path) : Moment → Moment → Prop where
  | miss {pass : Pass} {task : Task} {rest : List Task}
      (hPath : task.path? env root = .ok none) :
      Step env root (pass, task :: rest) (pass.miss task, rest)
  | skip {pass : Pass} {task : Task} {rest : List Task} {path real : Path}
      (hPath : task.path? env root = .ok (some path)) (hReal : task.realPath env path = .ok real)
      (hVisited : real.parts ∈ pass.visited) :
      Step env root (pass, task :: rest) (pass.skip path, rest)
  | read {pass : Pass} {task : Task} {rest : List Task} {path real : Path} {script : String}
      (hPath : task.path? env root = .ok (some path)) (hReal : task.realPath env path = .ok real)
      (hNew : real.parts ∉ pass.visited) (hRead : env.readScript path = .ok script) :
      Step env root (pass, task :: rest)
        (pass.read real.parts path script, includeTasks task.depth path script ++ rest)

/-- A task that cannot be done ends a pass: its file cannot be told, is known by no place, or cannot
be read, and then its place counts as visited. -/
inductive Fails (env : Environment) (root : Path) : Moment → Pass → Failure → Prop where
  | find {pass : Pass} {task : Task} {rest : List Task} {failure : Failure}
      (hPath : task.path? env root = .error failure) :
      Fails env root (pass, task :: rest) pass failure
  | resolve {pass : Pass} {task : Task} {rest : List Task} {path : Path} {failure : Failure}
      (hPath : task.path? env root = .ok (some path))
      (hReal : task.realPath env path = .error failure) :
      Fails env root (pass, task :: rest) pass failure
  | read {pass : Pass} {task : Task} {rest : List Task} {path real : Path} {failure : Failure}
      (hPath : task.path? env root = .ok (some path)) (hReal : task.realPath env path = .ok real)
      (hNew : real.parts ∉ pass.visited) (hRead : env.readScript path = .error failure) :
      Fails env root (pass, task :: rest) (pass.visit real.parts) failure

theorem Pass.miss_visited (pass : Pass) (task : Task) :
    (pass.miss task).visited = pass.visited := by
  cases task <;> rfl

/-- No pass goes on forever: from step to step the places that were not visited become fewer, or
stay and the tasks become fewer. -/
theorem step_wellFounded (env : Environment) (root : Path) :
    WellFounded fun later earlier => Step env root earlier later := by
  let size : Moment → Nat × Nat := fun moment => (unvisited env moment.1.visited, moment.2.length)
  have hSize : WellFounded (InvImage (Prod.Lex (· < ·) (· < ·)) size) :=
    InvImage.wf size (Prod.lex Nat.lt_wfRel Nat.lt_wfRel).wf
  refine Subrelation.wf ?_ hSize
  intro later earlier hStep
  cases hStep with
  | miss hPath =>
      simp only [InvImage, size, Pass.miss_visited]
      exact Prod.Lex.right _ (by simp)
  | skip hPath hReal hVisited => exact Prod.Lex.right _ (by simp)
  | read hPath hReal hNew hRead =>
      exact Prod.Lex.left _ _ (unvisited_cons_lt (Task.resolveHome_of_realPath hReal)
        (by simpa using hNew) hRead)

/-- The run of a pass goes along its steps. -/
theorem run_eq_of_step {env : Environment} {root : Path} {earlier later : Moment}
    (h : Step env root earlier later) :
    run env root earlier.1 earlier.2 = run env root later.1 later.2 := by
  cases h with
  | miss hPath =>
      rw [run]
      simp only [hPath]
  | skip hPath hReal hVisited =>
      rw [run]
      simp only [hPath]
      split
      · next hError => rw [hReal] at hError; cases hError
      · next other hOther =>
          rw [hReal] at hOther
          cases hOther
          rw [dif_pos (by simpa using hVisited)]
  | read hPath hReal hNew hRead =>
      rw [run]
      simp only [hPath]
      split
      · next hError => rw [hReal] at hError; cases hError
      · next other hOther =>
          rw [hReal] at hOther
          cases hOther
          rw [dif_neg (by simpa using hNew)]
          split
          · next hError => rw [hRead] at hError; cases hError
          · next other hOther =>
              rw [hRead] at hOther
              cases hOther
              rfl

/-- A moment that fails is where a run ends. -/
theorem run_eq_of_fails {env : Environment} {root : Path} {moment : Moment} {final : Pass}
    {failure : Failure} (h : Fails env root moment final failure) :
    run env root moment.1 moment.2 = (final, some failure) := by
  cases h with
  | find hPath =>
      rw [run]
      simp only [hPath]
  | resolve hPath hReal =>
      rw [run]
      simp only [hPath]
      split
      · next other hOther =>
          rw [hReal] at hOther
          cases hOther
          rfl
      · next hOther => rw [hReal] at hOther; cases hOther
  | read hPath hReal hNew hRead =>
      rw [run]
      simp only [hPath]
      split
      · next hError => rw [hReal] at hError; cases hError
      · next other hOther =>
          rw [hReal] at hOther
          cases hOther
          rw [dif_neg (by simpa using hNew)]
          split
          · next other hOther =>
              rw [hRead] at hOther
              cases hOther
              rfl
          · next hOther => rw [hRead] at hOther; cases hOther

/-- From every moment with a task left there is a step or a failure. -/
theorem step_or_fails (env : Environment) (root : Path) (pass : Pass) (task : Task)
    (rest : List Task) :
    (∃ later, Step env root (pass, task :: rest) later) ∨
      ∃ final failure, Fails env root (pass, task :: rest) final failure := by
  rcases hPath : task.path? env root with failure | (_ | path)
  · exact .inr ⟨_, failure, .find hPath⟩
  · exact .inl ⟨_, .miss hPath⟩
  · cases hReal : task.realPath env path with
    | error failure => exact .inr ⟨_, failure, .resolve hPath hReal⟩
    | ok real =>
        by_cases hVisited : real.parts ∈ pass.visited
        · exact .inl ⟨_, .skip hPath hReal hVisited⟩
        · cases hRead : env.readScript path with
          | error failure => exact .inr ⟨_, failure, .read hPath hReal hVisited hRead⟩
          | ok script => exact .inl ⟨_, .read hPath hReal hVisited hRead⟩

/-- A run without failure takes steps until no task is left. -/
theorem steps_of_run {env : Environment} {root : Path} {final : Pass} (moment : Moment)
    (h : run env root moment.1 moment.2 = (final, none)) :
    Relation.ReflTransGen (Step env root) moment (final, []) := by
  induction moment using (step_wellFounded env root).induction with
  | h moment ih =>
      obtain ⟨pass, tasks⟩ := moment
      cases tasks with
      | nil =>
          rw [run] at h
          cases h
          exact .refl
      | cons task rest =>
          rcases step_or_fails env root pass task rest with ⟨later, hStep⟩ | ⟨_, _, hFails⟩
          · rw [run_eq_of_step hStep] at h
            exact .head hStep (ih later hStep h)
          · rw [run_eq_of_fails hFails] at h
            cases h

section Proper

variable {env : Environment}

/-- What is kept are the items of which the test holds. -/
theorem mem_filterM?_iff {α : Type} {test : α → Except Failure Bool} {items kept : List α}
    {item : α} (h : filterM? test items = .ok kept) :
    item ∈ kept ↔ item ∈ items ∧ test item = .ok true := by
  induction items generalizing kept with
  | nil =>
      cases h
      simp
  | cons first rest ih =>
      rw [filterM?] at h
      split at h
      · cases h
      · next keep hFirst =>
          split at h
          · cases h
          · next others hOthers =>
              cases h
              cases keep with
              | true =>
                  simp only [if_true, List.mem_cons, ih hOthers]
                  constructor
                  · rintro (rfl | ⟨hMem, hTest⟩)
                    · exact ⟨.inl rfl, hFirst⟩
                    · exact ⟨.inr hMem, hTest⟩
                  · rintro ⟨rfl | hMem, hTest⟩
                    · exact .inl rfl
                    · exact .inr ⟨hMem, hTest⟩
              | false =>
                  simp only [Bool.false_eq_true, if_false, List.mem_cons, ih hOthers]
                  constructor
                  · rintro ⟨hMem, hTest⟩
                    exact ⟨.inr hMem, hTest⟩
                  · rintro ⟨rfl | hMem, hTest⟩
                    · rw [hFirst] at hTest
                      cases hTest
                    · exact ⟨hMem, hTest⟩

/-- The root lumps of a proper root are proper. -/
theorem rootLumps_proper {root lump : Path} {lumps : List Path} (hRoot : root.Proper)
    (hLumps : rootLumps env root = .ok lumps) (hLump : lump ∈ lumps) : lump.Proper := by
  unfold rootLumps at hLumps
  split at hLumps
  · split at hLumps
    · cases hLumps
      cases hLump
    · cases hLumps
  · obtain ⟨name, -, rfl⟩ := List.mem_map.mp ((mem_filterM?_iff hLumps).mp hLump).1
    exact hRoot.child name

theorem walk_proper {current found : Path} {parts : List String} (hCurrent : current.Proper)
    (h : walk env current parts = .ok (some found)) : found.Proper := by
  induction parts generalizing current with
  | nil =>
      cases h
      exact hCurrent
  | cons part rest ih =>
      rw [walk] at h
      split at h
      · exact ih hCurrent.parent h
      · simp only at h
        split at h
        · cases h
        · exact ih (hCurrent.child part) h
        · split at h
          · split at h <;> cases h
          · next names hNames =>
              split at h
              · cases h
              · next name hName => exact ih (hCurrent.child name) h

/-- A file that is found below a proper path has a proper path. -/
theorem fileBelow?_proper {base found : Path} {relative : String} (hBase : base.Proper)
    (h : fileBelow? env base relative = .ok (some found)) : found.Proper := by
  unfold fileBelow? at h
  split at h
  · cases h
  · cases h
  · next reached hWalk =>
      split at h
      · cases h
      · split at h
        · cases h
          exact walk_proper hBase hWalk
        · cases h

/-- An include of a proper file is proper. -/
theorem resolveInclude_proper {root including found : Path} {target : String}
    (hRoot : root.Proper) (hIncluding : including.Proper)
    (h : resolveInclude env root including target = .ok (some found)) : found.Proper := by
  unfold resolveInclude at h
  split at h
  · cases h
  · next hBelow =>
      cases h
      exact fileBelow?_proper hRoot hBelow
  · exact fileBelow?_proper hIncluding.parent h

end Proper

/-- The place by which a file is known: where its path leads once the home directory is filled
in. -/
def placeOf (env : Environment) (file : String) : Except Failure Place :=
  (env.resolveHome (.ofString file)).map (·.parts)

/-- A file holds an include directive for a target. -/
def Includes (env : Environment) (file target : String) : Prop :=
  ∃ script, env.readScript (.ofString file) = .ok script ∧
    target.toList ∈ Source.includes script.toList

/-- A directive in one file leads to another. -/
def LeadsTo (env : Environment) (root : Path) (including file : String) : Prop :=
  ∃ target path, Includes env including target ∧
    resolveInclude env root (.ofString including) target = .ok (some path) ∧ path.toString = file

/-- What the tasks of a pass are: root lumps, and directives of files that were read. -/
def Task.Given (env : Environment) (lumps : List Path) (pass : Pass) : Task → Prop
  | .read path => path ∈ lumps
  | .follow _ including target =>
    including.Proper ∧ including.toString ∈ pass.files ∧ Includes env including.toString target

/-- The directive of a task is noted as one for which nothing was found. -/
def Task.Noted (pass : Pass) : Task → Prop
  | .read _ => False
  | .follow _ including target => (including.toString, target) ∈ pass.missing

/-- A task was done: its file is noted as missing, or is known by a visited place. -/
def Task.Done (env : Environment) (root : Path) (pass : Pass) (task : Task) : Prop :=
  (task.path? env root = .ok none ∧ task.Noted pass) ∨
    ∃ path place, task.path? env root = .ok (some path) ∧
      placeOf env path.toString = .ok place ∧ place ∈ pass.visited

/-- The task at another depth of files that include one another. -/
def Task.atDepth (depth : Nat) : Task → Task
  | .read path => .read path
  | .follow _ including target => .follow depth including target

/-- What holds at every moment of a pass that started with nothing visited. -/
structure Sound (env : Environment) (root : Path) (lumps : List Path) (pass : Pass)
    (tasks : List Task) : Prop where
  distinct : (pass.files.map (placeOf env)).Nodup
  visited : ∀ place, place ∈ pass.visited ↔ ∃ file ∈ pass.files, placeOf env file = .ok place
  written : ∀ file ∈ pass.files, (Path.ofString file).toString = file
  readable : ∀ file ∈ pass.files, ∃ script, env.readScript (.ofString file) = .ok script
  origin : ∀ before file after, pass.files = before ++ file :: after →
    (∃ lump ∈ lumps, lump.toString = file) ∨ ∃ including ∈ before, LeadsTo env root including file
  given : ∀ task ∈ tasks, task.Given env lumps pass
  covered : ∀ task : Task, task.Given env lumps pass →
    task.Done env root pass ∨ ∃ depth, task.atDepth depth ∈ tasks

section Invariant

variable {env : Environment} {root : Path} {lumps : List Path}

/-- At its start a pass is sound: its tasks are the root lumps. -/
theorem Sound.initial (table : Table) :
    Sound env root lumps (.initial table []) (lumps.map .read) where
  distinct := List.nodup_nil
  visited := by simp [Pass.initial]
  written := by simp [Pass.initial]
  readable := by simp [Pass.initial]
  origin := by simp [Pass.initial]
  given := by
    intro task hTask
    obtain ⟨lump, hLump, rfl⟩ := List.mem_map.mp hTask
    exact hLump
  covered := by
    intro task hGiven
    cases task with
    | read lump => exact .inr ⟨0, List.mem_map_of_mem hGiven⟩
    | follow depth including target => exact absurd hGiven.2.1 List.not_mem_nil

theorem Task.done_atDepth {pass : Pass} {task : Task} {depth : Nat} :
    (task.atDepth depth).Done env root pass ↔ task.Done env root pass := by
  cases task with
  | read path => exact Iff.rfl
  | follow => exact Iff.rfl

/-- What a task asks for stays done. -/
theorem Task.Done.mono {pass later : Pass} {task : Task} (hMissing : pass.missing ⊆ later.missing)
    (hVisited : pass.visited ⊆ later.visited) (h : task.Done env root pass) :
    task.Done env root later := by
  rcases h with ⟨hNone, hNoted⟩ | ⟨path, place, hSome, hPlace, hMem⟩
  · cases task with
    | read => exact absurd hNoted id
    | follow => exact .inl ⟨hNone, hMissing hNoted⟩
  · exact .inr ⟨path, place, hSome, hPlace, hVisited hMem⟩

/-- What gave rise to a task still does when more files are read. -/
theorem Task.Given.mono {pass later : Pass} {task : Task} (hFiles : pass.files ⊆ later.files)
    (h : task.Given env lumps pass) : task.Given env lumps later := by
  cases task with
  | read path => exact h
  | follow depth including target => exact ⟨h.1, hFiles h.2.1, h.2.2⟩

/-- The file of a task has a path that can be written and read back. -/
theorem Task.Given.proper {path : Path} {pass : Pass} {task : Task} (hRoot : root.Proper)
    (hLumps : ∀ lump ∈ lumps, lump.Proper) (h : task.Given env lumps pass)
    (hPath : task.path? env root = .ok (some path)) : path.Proper := by
  cases task with
  | read lump =>
      cases hPath
      exact hLumps _ h
  | follow depth including target => exact resolveInclude_proper hRoot h.1 hPath

/-- The file of a task is a root lump, or a directive of a file that was read leads to it. -/
theorem Task.Given.origin {path : Path} {pass : Pass} {task : Task} (h : task.Given env lumps pass)
    (hPath : task.path? env root = .ok (some path)) :
    (∃ lump ∈ lumps, lump.toString = path.toString) ∨
      ∃ including ∈ pass.files, LeadsTo env root including path.toString := by
  cases task with
  | read lump =>
      cases hPath
      exact .inl ⟨_, h, rfl⟩
  | follow depth including target =>
      refine .inr ⟨including.toString, h.2.1, target, path, h.2.2, ?_, rfl⟩
      rw [Path.ofString_toString h.1]
      exact hPath

/-- The place of a file can be told from the text of its path. -/
theorem placeOf_toString {path real : Path} (hProper : path.Proper)
    (hReal : env.resolveHome path = .ok real) : placeOf env path.toString = .ok real.parts := by
  rw [placeOf, Path.ofString_toString hProper, hReal]
  rfl

/-- A pass that only notes something keeps all that was said, if the task it leaves is done. -/
theorem Sound.of_same_files {pass later : Pass} {task : Task} {rest : List Task}
    (h : Sound env root lumps pass (task :: rest)) (hFiles : later.files = pass.files)
    (hVisited : later.visited = pass.visited) (hMissing : pass.missing ⊆ later.missing)
    (hDone : task.Done env root later) : Sound env root lumps later rest where
  distinct := hFiles ▸ h.distinct
  visited := by
    rw [hFiles, hVisited]
    exact h.visited
  written := hFiles ▸ h.written
  readable := hFiles ▸ h.readable
  origin := hFiles ▸ h.origin
  given := by
    intro other hOther
    exact (h.given other (List.mem_cons_of_mem _ hOther)).mono (hFiles ▸ List.Subset.refl _)
  covered := by
    intro other hGiven
    have hBefore : other.Given env lumps pass := hGiven.mono (hFiles ▸ List.Subset.refl _)
    rcases h.covered other hBefore with hOther | ⟨depth, hOther⟩
    · exact .inl (hOther.mono hMissing (hVisited ▸ List.Subset.refl _))
    · rcases List.mem_cons.mp hOther with rfl | hRest
      · exact .inl (Task.done_atDepth.mp hDone)
      · exact .inr ⟨depth, hRest⟩

/-- The tasks of a file are its include directives. -/
theorem mem_includeTasks {depth : Nat} {path : Path} {script : String} {task : Task} :
    task ∈ includeTasks depth path script ↔
      ∃ target : String, target.toList ∈ Source.includes script.toList ∧
        task = .follow depth path target := by
  unfold includeTasks
  constructor
  · intro hTask
    obtain ⟨raw, hRaw, rfl⟩ := List.mem_map.mp hTask
    exact ⟨String.ofList raw, by rwa [String.toList_ofList], rfl⟩
  · rintro ⟨target, hTarget, rfl⟩
    exact List.mem_map.mpr ⟨target.toList, hTarget, by rw [String.ofList_toList]⟩

/-- What a pass may do after a file was read: what it might do before, and the file's directives. -/
theorem Task.Given.of_read {pass : Pass} {task : Task} {place : Place} {path : Path}
    {script : String} (hProper : path.Proper)
    (hScript : env.readScript (.ofString path.toString) = .ok script)
    (h : task.Given env lumps (pass.read place path script)) (depth : Nat) :
    task.Given env lumps pass ∨ task.atDepth depth ∈ includeTasks depth path script := by
  cases task with
  | read lump => exact .inl h
  | follow _ including target =>
      obtain ⟨hIncluding, hFile, hIncludes⟩ := h
      rcases List.mem_append.mp hFile with hBefore | hLast
      · exact .inl ⟨hIncluding, hBefore, hIncludes⟩
      · have hSame := Path.toString_injective hIncluding hProper (List.mem_singleton.mp hLast)
        subst hSame
        obtain ⟨same, hSameScript, hTarget⟩ := hIncludes
        rw [hScript] at hSameScript
        cases hSameScript
        exact .inr (mem_includeTasks.mpr ⟨target, hTarget, rfl⟩)

/-- Reading a file at a new place keeps what holds, with the directives of the file as tasks. -/
theorem Sound.read {pass : Pass} {task : Task} {rest : List Task} {path real : Path}
    {script : String} (hRoot : root.Proper) (hLumps : ∀ lump ∈ lumps, lump.Proper)
    (h : Sound env root lumps pass (task :: rest)) (hPath : task.path? env root = .ok (some path))
    (hReal : env.resolveHome path = .ok real) (hNew : real.parts ∉ pass.visited)
    (hRead : env.readScript path = .ok script) (depth : Nat) :
    Sound env root lumps (pass.read real.parts path script)
      (includeTasks depth path script ++ rest) := by
  have hGiven := h.given task (List.mem_cons_self ..)
  have hProper := hGiven.proper hRoot hLumps hPath
  have hWritten := Path.ofString_toString hProper
  have hPlace := placeOf_toString hProper hReal
  have hScript : env.readScript (.ofString path.toString) = .ok script := by rwa [hWritten]
  have hFiles : pass.files ⊆ (pass.read real.parts path script).files :=
    List.subset_append_left ..
  have hVisited : pass.visited ⊆ (pass.read real.parts path script).visited :=
    List.subset_cons_self ..
  have hMissing : pass.missing ⊆ (pass.read real.parts path script).missing :=
    List.Subset.refl _
  refine ⟨?distinct, ?visited, ?written, ?readable, ?origin, ?given, ?covered⟩
  case distinct =>
    change ((pass.files ++ [path.toString]).map (placeOf env)).Nodup
    rw [List.map_append, List.nodup_append]
    refine ⟨h.distinct, by simp, ?_⟩
    intro place hOld other hOther hSame
    rw [List.map_singleton, List.mem_singleton, hPlace] at hOther
    obtain ⟨file, hFile, hFilePlace⟩ := List.mem_map.mp hOld
    exact hNew ((h.visited real.parts).mpr ⟨file, hFile, hFilePlace.trans (hSame.trans hOther)⟩)
  case visited =>
    intro place
    change place ∈ real.parts :: pass.visited ↔
      ∃ file ∈ pass.files ++ [path.toString], placeOf env file = .ok place
    rw [List.mem_cons, h.visited]
    constructor
    · rintro (rfl | ⟨file, hFile, hFilePlace⟩)
      · exact ⟨path.toString, by simp, hPlace⟩
      · exact ⟨file, List.mem_append_left _ hFile, hFilePlace⟩
    · rintro ⟨file, hFile, hFilePlace⟩
      rcases List.mem_append.mp hFile with hOld | hLast
      · exact .inr ⟨file, hOld, hFilePlace⟩
      · rw [List.mem_singleton.mp hLast, hPlace] at hFilePlace
        exact .inl (Except.ok.inj hFilePlace).symm
  case written =>
    intro file hFile
    rcases List.mem_append.mp hFile with hOld | hLast
    · exact h.written file hOld
    · rw [List.mem_singleton.mp hLast, hWritten]
  case readable =>
    intro file hFile
    rcases List.mem_append.mp hFile with hOld | hLast
    · exact h.readable file hOld
    · rw [List.mem_singleton.mp hLast]
      exact ⟨script, hScript⟩
  case origin =>
    exact Text.forall_split_append h.origin (hGiven.origin hPath)
  case given =>
    intro other hOther
    rcases List.mem_append.mp hOther with hInclude | hRest
    · obtain ⟨target, hTarget, rfl⟩ := mem_includeTasks.mp hInclude
      exact ⟨hProper, List.mem_append_right _ (List.mem_singleton_self _), script, hScript, hTarget⟩
    · exact (h.given other (List.mem_cons_of_mem _ hRest)).mono hFiles
  case covered =>
    intro other hOther
    rcases hOther.of_read hProper hScript depth with hBefore | hInclude
    · rcases h.covered other hBefore with hDone | ⟨here, hMem⟩
      · exact .inl (hDone.mono hMissing hVisited)
      · rcases List.mem_cons.mp hMem with rfl | hRest
        · exact .inl (Task.done_atDepth.mp
            (.inr ⟨path, real.parts, hPath, hPlace, List.mem_cons_self ..⟩))
        · exact .inr ⟨here, List.mem_append_right _ hRest⟩
    · exact .inr ⟨depth, List.mem_append_left _ hInclude⟩

/-- Every step of a pass keeps what holds. -/
theorem Sound.step {earlier later : Moment} (hRoot : root.Proper)
    (hLumps : ∀ lump ∈ lumps, lump.Proper) (h : Sound env root lumps earlier.1 earlier.2)
    (hStep : Step env root earlier later) : Sound env root lumps later.1 later.2 := by
  cases hStep with
  | @miss pass task rest hPath =>
      cases task with
      | read lump => cases hPath
      | follow depth including target =>
          refine h.of_same_files rfl rfl (List.subset_append_left ..) (.inl ⟨hPath, ?_⟩)
          exact List.mem_append_right _ (List.mem_singleton_self _)
  | @skip pass task rest path real hPath hReal hVisited =>
      have hProper := (h.given task (List.mem_cons_self ..)).proper hRoot hLumps hPath
      have hPlace := placeOf_toString hProper (Task.resolveHome_of_realPath hReal)
      exact h.of_same_files rfl rfl (List.Subset.refl _)
        (.inr ⟨path, real.parts, hPath, hPlace, hVisited⟩)
  | read hPath hReal hNew hRead =>
      exact h.read hRoot hLumps hPath (Task.resolveHome_of_realPath hReal) hNew hRead _

/-- What holds at one moment of a pass holds at every later one. -/
theorem Sound.steps {earlier later : Moment} (hRoot : root.Proper)
    (hLumps : ∀ lump ∈ lumps, lump.Proper) (h : Sound env root lumps earlier.1 earlier.2)
    (hSteps : Relation.ReflTransGen (Step env root) earlier later) :
    Sound env root lumps later.1 later.2 := by
  induction hSteps with
  | refl => exact h
  | tail _ hStep ih => exact ih.step hRoot hLumps hStep

end Invariant

theorem Task.realPath_read (env : Environment) (file path : Path) :
    (Task.read file).realPath env path = env.resolveHome path := by
  simp [Task.realPath, Task.depth, Environment.resolveHome]

/-- Root lumps whose places were all visited are skipped, and nothing but the log changes. -/
theorem run_of_visited {env : Environment} {root : Path} (pass : Pass) (lumps : List Path)
    (h : ∀ lump ∈ lumps, ∃ real, env.resolveHome lump = .ok real ∧ real.parts ∈ pass.visited) :
    ∃ log, run env root pass (lumps.map .read) = ({ pass with log }, none) := by
  induction lumps generalizing pass with
  | nil =>
      refine ⟨pass.log, ?_⟩
      rw [List.map_nil, run]
  | cons lump rest ih =>
      obtain ⟨real, hReal, hVisited⟩ := h lump (List.mem_cons_self ..)
      obtain ⟨log, hRun⟩ := ih (pass.skip lump) fun other hOther =>
        h other (List.mem_cons_of_mem _ hOther)
      refine ⟨log, ?_⟩
      have hStep : Step env root (pass, .read lump :: rest.map .read) (pass.skip lump, _) :=
        .skip rfl ((Task.realPath_read ..).trans hReal) hVisited
      exact (run_eq_of_step hStep).trans hRun

/-- A whole pass is a run over the root lumps, with a summary in the log. -/
theorem parse_eq_ok_iff {env : Environment} {root : Path} {table : Table} {visited : List Place}
    {pass : Pass} :
    parse env root table visited = (pass, none) ↔
      ∃ lumps final, rootLumps env root = .ok lumps ∧
        run env root (.initial table visited) (lumps.map .read) = (final, none) ∧
        pass = { final with log := final.log ++ [⟨.info, channel,
          "Parsed " ++ toString final.functions ++ " functions from " ++
            toString final.files.length ++ " files under " ++ root.toString⟩] } := by
  unfold parse
  constructor
  · intro h
    simp only at h
    split at h
    · cases h
    · next lumps hLumps =>
        split at h
        · cases h
        · next final hRun =>
            cases h
            exact ⟨lumps, final, hLumps, hRun, rfl⟩
  · rintro ⟨lumps, final, hLumps, hRun, rfl⟩
    simp only [hLumps, hRun]

/-- What a pass over a project comes to if nothing was visited before it. Files are known by the
places that their paths lead to. -/
structure Complete (env : Environment) (root : Path) (lumps : List Path) (pass : Pass) : Prop where
  /-- No two of the files that were read are known by the same place. -/
  distinct : (pass.files.map (placeOf env)).Nodup
  /-- The visited places are those by which the files that were read are known. -/
  visited : ∀ place, place ∈ pass.visited ↔ ∃ file ∈ pass.files, placeOf env file = .ok place
  /-- Each file is a root lump, or a directive of a file that was read earlier leads to it. -/
  origin : ∀ before file after, pass.files = before ++ file :: after →
    (∃ lump ∈ lumps, lump.toString = file) ∨ ∃ including ∈ before, LeadsTo env root including file
  /-- Each directive of a file leads to a visited place, or to nothing and is noted. -/
  includes : ∀ file ∈ pass.files, ∃ script, env.readScript (.ofString file) = .ok script ∧
    ∀ target : String, target.toList ∈ Source.includes script.toList →
      (resolveInclude env root (.ofString file) target = .ok none ∧ (file, target) ∈ pass.missing) ∨
      ∃ path place, resolveInclude env root (.ofString file) target = .ok (some path) ∧
        placeOf env path.toString = .ok place ∧ place ∈ pass.visited
  /-- Each root lump is known by a visited place. -/
  lumps : ∀ lump ∈ lumps, ∃ place, placeOf env lump.toString = .ok place ∧ place ∈ pass.visited

/-- Where no task is left, the pass is complete. -/
theorem Sound.complete {env : Environment} {root : Path} {lumps : List Path} {pass : Pass}
    (h : Sound env root lumps pass []) : Complete env root lumps pass where
  distinct := h.distinct
  visited := h.visited
  origin := h.origin
  includes := by
    intro file hFile
    obtain ⟨script, hScript⟩ := h.readable file hFile
    refine ⟨script, hScript, ?_⟩
    intro target hTarget
    have hWritten := h.written file hFile
    have hGiven : (Task.follow 0 (.ofString file) target).Given env lumps pass :=
      ⟨Path.proper_ofString file, hWritten.symm ▸ hFile, hWritten.symm ▸ ⟨script, hScript, hTarget⟩⟩
    rcases h.covered _ hGiven with (⟨hNone, hNoted⟩ | hSome) | ⟨_, hLeft⟩
    · rw [Task.Noted, hWritten] at hNoted
      exact .inl ⟨hNone, hNoted⟩
    · exact .inr hSome
    · cases hLeft
  lumps := by
    intro lump hLump
    rcases h.covered (.read lump) hLump with
      (⟨hNone, -⟩ | ⟨path, place, hPath, hPlace, hVisited⟩) | ⟨_, hLeft⟩
    · cases hNone
    · cases hPath
      exact ⟨place, hPlace, hVisited⟩
    · cases hLeft

/-- Every pass over a project ends, whatever its files include. One that starts with nothing visited
and ends without a failure is complete, and another pass with the places it visited reads no file
and finds nothing. -/
theorem parse_is_complete (env : Environment) (root : String) (table : Table) :
    (WellFounded fun later earlier => Step env (.ofString root) earlier later) ∧
      ∀ pass, parse env (.ofString root) table [] = (pass, none) →
        ∃ lumps, rootLumps env (.ofString root) = .ok lumps ∧
          Complete env (.ofString root) lumps pass ∧
          ∀ other, ∃ again, parse env (.ofString root) other pass.visited = (again, none) ∧
            again.files = [] ∧ again.functions = 0 ∧ again.table = other ∧
            again.visited = pass.visited := by
  refine ⟨step_wellFounded env _, ?_⟩
  intro pass hPass
  have hRoot := Path.proper_ofString root
  obtain ⟨lumps, final, hLumps, hRun, rfl⟩ := parse_eq_ok_iff.mp hPass
  have hProper : ∀ lump ∈ lumps, lump.Proper := fun lump => rootLumps_proper hRoot hLumps
  have hStart : Sound env (.ofString root) lumps (.initial table []) (lumps.map .read) :=
    Sound.initial table
  have hComplete := Sound.complete (hStart.steps hRoot hProper (steps_of_run (_, _) hRun))
  refine ⟨lumps, hLumps, ?_, ?_⟩
  · exact ⟨hComplete.distinct, hComplete.visited, hComplete.origin, hComplete.includes,
      hComplete.lumps⟩
  · intro other
    have hVisited : ∀ lump ∈ lumps, ∃ real, env.resolveHome lump = .ok real ∧
        real.parts ∈ (Pass.initial other final.visited).visited := by
      intro lump hLump
      obtain ⟨place, hPlace, hMem⟩ := hComplete.lumps lump hLump
      rw [placeOf, Path.ofString_toString (hProper lump hLump)] at hPlace
      cases hReal : env.resolveHome lump with
      | error failure =>
          rw [hReal] at hPlace
          cases hPlace
      | ok real =>
          rw [hReal] at hPlace
          cases hPlace
          exact ⟨real, rfl, hMem⟩
    obtain ⟨log, hAgain⟩ := run_of_visited _ lumps hVisited
    exact ⟨_, parse_eq_ok_iff.mpr ⟨lumps, _, hLumps, hAgain, rfl⟩, rfl, rfl, rfl, rfl⟩

theorem sortNames_of_sorted {names : List String}
    (h : names.Pairwise fun a b => decide (a ≤ b) = true) : sortNames names = names :=
  List.mergeSort_of_pairwise h

/-- A project whose two files include each other, one of them also through a link, and a third file
that is not there. -/
def mutualProject : Environment where
  tree := .ofEntries [(["mod"], .directory),
    (["mod", "a.zs"],
      .file (Text.encodeUtf8 "#include \"ZSCRIPT.zs\"\n#include \"link.zs\"".toList)),
    (["mod", "link.zs"], .link "a.zs"),
    (["mod", "zscript.zs"],
      .file (Text.encodeUtf8 "#include \"a.zs\"\n#include \"b.zs\"".toList))]
  working := []
  stands := rfl

theorem rootLumps_mutualProject :
    rootLumps mutualProject (.ofString "/mod") = .ok [⟨.slash, ["mod", "zscript.zs"]⟩] := by
  have hNames : mutualProject.names (.ofString "/mod") =
      .ok ["a.zs", "link.zs", "zscript.zs"] := by decide +kernel
  simp only [rootLumps, hNames]
  rw [sortNames_of_sorted (by decide +kernel)]
  decide +kernel

/-- The mutual includes are read once, and the missing one is noted. -/
theorem run_mutualProject :
    ∃ final, run mutualProject (.ofString "/mod") (.initial .empty [])
        [.read ⟨.slash, ["mod", "zscript.zs"]⟩] = (final, none) ∧
      final.files = ["/mod/zscript.zs", "/mod/a.zs"] ∧
      final.missing = [("/mod/zscript.zs", "b.zs")] := by
  let main : Path := ⟨.slash, ["mod", "zscript.zs"]⟩
  let other : Path := ⟨.slash, ["mod", "a.zs"]⟩
  let link : Path := ⟨.slash, ["mod", "link.zs"]⟩
  let first := (Pass.initial .empty []).read main.parts main "#include \"a.zs\"\n#include \"b.zs\""
  let second := first.read other.parts other "#include \"ZSCRIPT.zs\"\n#include \"link.zs\""
  have hFirst : Step mutualProject (.ofString "/mod") (.initial .empty [], [.read main])
      (first, [.follow 0 main "a.zs", .follow 0 main "b.zs"]) := by
    have hTasks : includeTasks 0 main "#include \"a.zs\"\n#include \"b.zs\"" =
        [.follow 0 main "a.zs", .follow 0 main "b.zs"] :=
      congrArg (List.map fun target => Task.follow 0 main (String.ofList target))
        (show Source.includes _ = ["a.zs".toList, "b.zs".toList] by decide +kernel)
    rw [← hTasks, ← List.append_nil (includeTasks _ _ _)]
    exact .read rfl (by decide +kernel) (by decide) (by decide +kernel)
  have hSecond : Step mutualProject (.ofString "/mod")
      (first, [.follow 0 main "a.zs", .follow 0 main "b.zs"])
      (second,
        [.follow 1 other "ZSCRIPT.zs", .follow 1 other "link.zs", .follow 0 main "b.zs"]) := by
    have hTasks : includeTasks 1 other "#include \"ZSCRIPT.zs\"\n#include \"link.zs\"" =
        [.follow 1 other "ZSCRIPT.zs", .follow 1 other "link.zs"] :=
      congrArg (List.map fun target => Task.follow 1 other (String.ofList target))
        (show Source.includes _ = ["ZSCRIPT.zs".toList, "link.zs".toList] by decide +kernel)
    change Step _ _ _ (second, [.follow 1 other "ZSCRIPT.zs", .follow 1 other "link.zs"] ++ [_])
    rw [← hTasks]
    exact .read (by decide +kernel) (by decide +kernel) (by decide) (by decide +kernel)
  have hThird : Step mutualProject (.ofString "/mod")
      (second, [.follow 1 other "ZSCRIPT.zs", .follow 1 other "link.zs", .follow 0 main "b.zs"])
      (second.skip main, [.follow 1 other "link.zs", .follow 0 main "b.zs"]) :=
    have hReal : (Task.follow 1 other "ZSCRIPT.zs").realPath mutualProject main = .ok main := by
      decide +kernel
    .skip (by decide +kernel) hReal (by decide)
  have hFourth : Step mutualProject (.ofString "/mod")
      (second.skip main, [.follow 1 other "link.zs", .follow 0 main "b.zs"])
      ((second.skip main).skip link, [.follow 0 main "b.zs"]) :=
    have hReal : (Task.follow 1 other "link.zs").realPath mutualProject link = .ok other := by
      decide +kernel
    .skip (by decide +kernel) hReal (by decide)
  have hFifth : Step mutualProject (.ofString "/mod")
      ((second.skip main).skip link, [.follow 0 main "b.zs"])
      (((second.skip main).skip link).miss (.follow 0 main "b.zs"), []) :=
    .miss (by decide +kernel)
  refine ⟨((second.skip main).skip link).miss (.follow 0 main "b.zs"), ?_, rfl, rfl⟩
  rw [run_eq_of_step hFirst, run_eq_of_step hSecond, run_eq_of_step hThird, run_eq_of_step hFourth,
    run_eq_of_step hFifth, run]

theorem parse_is_complete_of_mutual_includes :
    ∃ pass, parse mutualProject (.ofString "/mod") .empty [] = (pass, none) ∧
      pass.files = ["/mod/zscript.zs", "/mod/a.zs"] ∧
      pass.missing = [("/mod/zscript.zs", "b.zs")] ∧
      ∃ lumps, rootLumps mutualProject (.ofString "/mod") = .ok lumps ∧
        Complete mutualProject (.ofString "/mod") lumps pass := by
  obtain ⟨final, hFinal, hFiles, hMissing⟩ := run_mutualProject
  have hPass := parse_eq_ok_iff.mpr ⟨_, final, rootLumps_mutualProject, hFinal, rfl⟩
  obtain ⟨lumps, hLumps, hComplete, -⟩ := (parse_is_complete mutualProject "/mod" .empty).2 _ hPass
  exact ⟨_, hPass, hFiles, hMissing, lumps, hLumps, hComplete⟩

/-- A project in the working directory whose root lump includes a file with a name that stands for
the home directory of nobody known. -/
def homelessInclude : Environment where
  tree := .ofEntries [(["zscript.zs"], .file (Text.encodeUtf8 "#include \"~x.zs\"".toList)),
    (["~x.zs"], .file [])]
  working := []
  stands := rfl

/-- A pass can also fail for another reason than a refused access to a file, and then it is not
complete: here a file that a directive leads to is known by no place. -/
theorem not_complete_of_unknown_home :
    ¬ ∀ (env : Environment) (root : String) (table : Table) (pass : Pass)
      (failure : Option Failure), parse env (.ofString root) table [] = (pass, failure) →
        (∀ error path, failure ≠ some (.file error path)) →
        ∃ lumps, rootLumps env (.ofString root) = .ok lumps ∧
          Complete env (.ofString root) lumps pass := by
  intro hAll
  let lump : Path := ⟨.relative, ["zscript.zs"]⟩
  let found : Path := ⟨.relative, ["~x.zs"]⟩
  let read := (Pass.initial .empty []).read ["zscript.zs"] lump "#include \"~x.zs\""
  have hLumps : rootLumps homelessInclude (.ofString ".") = .ok [lump] := by
    have hNames : homelessInclude.names (.ofString ".") = .ok ["zscript.zs", "~x.zs"] := by
      decide +kernel
    simp only [rootLumps, hNames]
    rw [sortNames_of_sorted (by decide +kernel)]
    decide +kernel
  have hFound : resolveInclude homelessInclude (.ofString ".") lump "~x.zs" = .ok (some found) := by
    decide +kernel
  have hReal : (Task.follow 0 lump "~x.zs").realPath homelessInclude found =
      .error .unknownHome := by decide +kernel
  have hIncludes : Source.includes "#include \"~x.zs\"".toList = ["~x.zs".toList] := by
    decide +kernel
  have hStep : Step homelessInclude (.ofString ".") (.initial .empty [], [.read lump])
      (read, includeTasks 0 lump "#include \"~x.zs\"" ++ []) :=
    have hLump : (Task.read lump).realPath homelessInclude lump =
        .ok ⟨.slash, ["zscript.zs"]⟩ := by
      decide +kernel
    .read rfl hLump (by decide) (by decide +kernel)
  have hTasks : includeTasks 0 lump "#include \"~x.zs\"" = [.follow 0 lump "~x.zs"] := by
    rw [includeTasks, hIncludes, List.map_singleton, String.ofList_toList]
  have hFails : Fails homelessInclude (.ofString ".") (read, [.follow 0 lump "~x.zs"]) read
      .unknownHome := .resolve hFound hReal
  have hRun : run homelessInclude (.ofString ".") (.initial .empty []) [.read lump] =
      (read, some .unknownHome) := by
    rw [run_eq_of_step hStep, hTasks, List.append_nil]
    exact run_eq_of_fails hFails
  have hParse : parse homelessInclude (.ofString ".") .empty [] = (read, some .unknownHome) := by
    simp only [parse, hLumps, List.map_cons, List.map_nil, hRun]
  obtain ⟨lumps, -, hComplete⟩ := hAll _ _ _ _ _ hParse (by intro error path h; cases h)
  obtain ⟨script, hScript, hSettled⟩ := hComplete.includes "zscript.zs" (List.mem_singleton_self _)
  have hSame : homelessInclude.readScript (.ofString "zscript.zs") = .ok "#include \"~x.zs\"" := by
    decide +kernel
  rw [hSame] at hScript
  cases hScript
  have hTarget : "~x.zs".toList ∈ Source.includes "#include \"~x.zs\"".toList := by
    rw [hIncludes]
    exact List.mem_singleton_self _
  rcases hSettled "~x.zs" hTarget with ⟨hNone, -⟩ | ⟨path, place, hPath, hPlace, -⟩
  · cases hFound.symm.trans hNone
  · cases hFound.symm.trans hPath
    have hUnknown : placeOf homelessInclude "~x.zs" = .error .unknownHome := by decide +kernel
    cases hUnknown.symm.trans hPlace

end SignatureIndex.Project
