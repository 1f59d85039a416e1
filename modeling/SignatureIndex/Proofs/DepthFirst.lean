import Mathlib.Data.List.Nodup
import SignatureIndex.Proofs.LastWriter
import SignatureIndex.Proofs.Pass

/-! The order in which a pass reads files. A pass keeps a list of tasks; a search of the include
directives goes down into each file before it goes on to the next. Both read the same files in the
same order, a file before everything that is first reached through it, and the table is what
scanning these files one after the other gives, also if the pass ends early. -/
namespace SignatureIndex.Project

open Table (sourced declared declaredCount)

/-- Files as a search finds them: a file, the files first reached through its directives, and the
files next to it. -/
inductive Forest where
  | empty
  | file (script : Source.Script) (below next : Forest)

namespace Forest

/-- The files in preorder. -/
def scripts : Forest → List Source.Script
  | empty => []
  | file script below next => script :: (below.scripts ++ next.scripts)

/-- One file is first reached through another, directly or not. -/
inductive Through : Forest → Source.Script → Source.Script → Prop where
  | here {script reached : Source.Script} {below next : Forest}
      (hReached : reached ∈ below.scripts) : Through (file script below next) script reached
  | inBelow {script including reached : Source.Script} {below next : Forest}
      (h : Through below including reached) : Through (file script below next) including reached
  | inNext {script including reached : Source.Script} {below next : Forest}
      (h : Through next including reached) : Through (file script below next) including reached

/-- A file stands before all that is first reached through it. -/
theorem Through.precedes {forest : Forest} {including reached : Source.Script}
    (h : forest.Through including reached) :
    ∃ front middle back,
      forest.scripts = front ++ including :: (middle ++ reached :: back) := by
  induction h with
  | @here script reached below next hReached =>
      obtain ⟨middle, back, hBelow⟩ := List.append_of_mem hReached
      exact ⟨[], middle, back ++ next.scripts, by simp [scripts, hBelow]⟩
  | @inBelow script _ _ below next _ ih =>
      obtain ⟨front, middle, back, hBelow⟩ := ih
      exact ⟨script :: front, middle, back ++ next.scripts, by simp [scripts, hBelow]⟩
  | @inNext script _ _ below next _ ih =>
      obtain ⟨front, middle, back, hNext⟩ := ih
      exact ⟨script :: (below.scripts ++ front), middle, back, by simp [scripts, hNext]⟩

end Forest

/-- The search of tasks in order. It takes what was visited and gives the files it reads, what is
visited after it, and the failure that ended it; once it has ended it reads nothing more. The
directives of a file are searched right after the file was read, and before the next task. -/
inductive Search (env : Environment) (root : Path) :
    Option Failure → List Place → List Task → Forest → List Place → Option Failure → Prop where
  | done {visited : List Place} : Search env root none visited [] .empty visited none
  | ended {visited : List Place} {tasks : List Task} {failure : Failure} :
      Search env root (some failure) visited tasks .empty visited (some failure)
  | miss {visited final : List Place} {task : Task} {rest : List Task} {forest : Forest}
      {ending : Option Failure} (hPath : task.path? env root = .ok none)
      (hRest : Search env root none visited rest forest final ending) :
      Search env root none visited (task :: rest) forest final ending
  | skip {visited final : List Place} {task : Task} {rest : List Task} {forest : Forest}
      {ending : Option Failure} {path real : Path}
      (hPath : task.path? env root = .ok (some path)) (hReal : task.realPath env path = .ok real)
      (hVisited : real.parts ∈ visited)
      (hRest : Search env root none visited rest forest final ending) :
      Search env root none visited (task :: rest) forest final ending
  | read {visited between final : List Place} {task : Task} {rest : List Task}
      {below next : Forest} {middle ending : Option Failure} {path real : Path} {text : String}
      (hPath : task.path? env root = .ok (some path)) (hReal : task.realPath env path = .ok real)
      (hNew : real.parts ∉ visited) (hRead : env.readScript path = .ok text)
      (hBelow : Search env root none (real.parts :: visited) (includeTasks task.depth path text)
        below between middle)
      (hRest : Search env root middle between rest next final ending) :
      Search env root none visited (task :: rest) (.file ⟨path.toString, text⟩ below next) final
        ending
  | fail {pass final : Pass} {task : Task} {rest other : List Task} {failure : Failure}
      (hFails : Fails env root (pass, task :: other) final failure) :
      Search env root none pass.visited (task :: rest) .empty final.visited (some failure)

/-- The search of a whole project, which starts with its root lumps. -/
inductive SearchAll (env : Environment) (root : Path) (visited : List Place) :
    Forest → List Place → Option Failure → Prop where
  | lumps {lumps : List Path} {forest : Forest} {final : List Place} {ending : Option Failure}
      (hLumps : rootLumps env root = .ok lumps)
      (hSearch : Search env root none visited (lumps.map .read) forest final ending) :
      SearchAll env root visited forest final ending
  | fail {failure : Failure} (hLumps : rootLumps env root = .error failure) :
      SearchAll env root visited .empty visited (some failure)

/-- What a pass has done when it has read some more files: they are listed, scanned into the table
one after the other, and what they declare is counted. -/
structure Adds (pass later : Pass) (scripts : List Source.Script) : Prop where
  files : later.files = pass.files ++ scripts.map (·.identifier)
  table : later.table = (scripts.map sourced).foldl Table.scan pass.table
  functions : later.functions = pass.functions + declaredCount (scripts.map sourced)

namespace Adds

variable {pass middle later : Pass} {first second : List Source.Script}

/-- What is added by two stretches of a pass is added in their order. -/
theorem append (hFirst : Adds pass middle first) (hSecond : Adds middle later second) :
    Adds pass later (first ++ second) where
  files := by rw [hSecond.files, hFirst.files, List.map_append, List.append_assoc]
  table := by rw [hSecond.table, hFirst.table, List.map_append, List.foldl_append]
  functions := by
    rw [hSecond.functions, hFirst.functions, List.map_append, Table.declaredCount_append,
      Nat.add_assoc]

theorem nothing (hFiles : later.files = pass.files) (hTable : later.table = pass.table)
    (hFunctions : later.functions = pass.functions) : Adds pass later [] where
  files := by simp [hFiles]
  table := by simp [hTable]
  functions := hFunctions

/-- A task for which nothing is found adds no script. -/
theorem miss (pass : Pass) (task : Task) : Adds pass (pass.miss task) [] := by
  cases task <;> exact nothing rfl rfl rfl

/-- A file that was read before adds no script. -/
theorem skip (pass : Pass) (path : Path) : Adds pass (pass.skip path) [] :=
  nothing rfl rfl rfl

/-- A file that is read adds its script and nothing else. -/
theorem read (pass : Pass) (place : Place) (path : Path) (text : String) :
    Adds pass (pass.read place path text) [⟨path.toString, text⟩] where
  files := rfl
  table := rfl
  functions := rfl

/-- A failure adds no script. -/
theorem of_fails {env : Environment} {root : Path} {moment : Moment} {final : Pass}
    {failure : Failure} (h : Fails env root moment final failure) : Adds moment.1 final [] := by
  cases h <;> exact nothing rfl rfl rfl

end Adds

section Run

variable {env : Environment} {root : Path}

/-- How a pass goes on after a search: with the tasks that are left, unless the search has ended. -/
def goOn (env : Environment) (root : Path) (ending : Option Failure) (pass : Pass)
    (rest : List Task) : Pass × Option Failure :=
  match ending with
  | none => run env root pass rest
  | some failure => (pass, some failure)

/-- A step and the steps after it make a strictly earlier moment, as the induction needs. -/
theorem transGen_of_step {earlier next later : Moment} (hStep : Step env root earlier next)
    (hSteps : Relation.ReflTransGen (Step env root) next later) :
    Relation.TransGen (fun later earlier => Step env root earlier later) later earlier :=
  (Relation.TransGen.head' hStep hSteps).swap

/-- The first tasks of a pass are done as a search does them, and then the rest is left. -/
theorem exists_search (moment : Moment) (tasks rest : List Task)
    (hTasks : moment.2 = tasks ++ rest) :
    ∃ forest later ending,
      Search env root none moment.1.visited tasks forest later.visited ending ∧
      Adds moment.1 later forest.scripts ∧
      run env root moment.1 moment.2 = goOn env root ending later rest ∧
      (ending = none → Relation.ReflTransGen (Step env root) moment (later, rest)) := by
  -- the tasks of a file that was read are done first; what is left after them comes after a step
  induction moment using (step_wellFounded env root).transGen.induction generalizing tasks rest with
  | h moment ih =>
      obtain ⟨pass, all⟩ := moment
      obtain rfl : all = tasks ++ rest := hTasks
      cases tasks with
      | nil =>
          exact ⟨.empty, pass, none, .done, .nothing rfl rfl rfl, rfl, fun _ => .refl⟩
      | cons task tasks =>
          rcases step_or_fails env root pass task (tasks ++ rest) with
            ⟨later, hStep⟩ | ⟨final, failure, hFails⟩
          · have hNext := transGen_of_step hStep .refl
            have hRun := run_eq_of_step hStep
            cases hStep with
            | miss hPath =>
                obtain ⟨forest, last, ending, hSearch, hAdds, hLast, hSteps⟩ :=
                  ih _ hNext tasks rest rfl
                rw [Pass.miss_visited] at hSearch
                exact ⟨forest, last, ending, .miss hPath hSearch,
                  (Adds.miss pass task).append hAdds, hRun.trans hLast,
                  fun hEnding => .head (.miss hPath) (hSteps hEnding)⟩
            | skip hPath hReal hVisited =>
                obtain ⟨forest, last, ending, hSearch, hAdds, hLast, hSteps⟩ :=
                  ih _ hNext tasks rest rfl
                exact ⟨forest, last, ending, .skip hPath hReal hVisited hSearch,
                  (Adds.skip pass _).append hAdds, hRun.trans hLast,
                  fun hEnding => .head (.skip hPath hReal hVisited) (hSteps hEnding)⟩
            | @read _ _ _ path real text hPath hReal hNew hRead =>
                obtain ⟨below, middle, ending, hBelow, hAdds, hMiddle, hSteps⟩ :=
                  ih _ hNext (includeTasks task.depth path text) (tasks ++ rest) rfl
                have hFirst := (Adds.read pass real.parts path text).append hAdds
                cases ending with
                | some failure =>
                    refine ⟨.file ⟨path.toString, text⟩ below .empty, middle, some failure,
                      .read hPath hReal hNew hRead hBelow .ended, ?_, hRun.trans hMiddle, by simp⟩
                    simpa [Forest.scripts] using hFirst
                | none =>
                    have hReached := transGen_of_step (.read hPath hReal hNew hRead) (hSteps rfl)
                    obtain ⟨next, last, ending, hSearch, hMore, hLast, hRest⟩ :=
                      ih _ hReached tasks rest rfl
                    refine ⟨.file ⟨path.toString, text⟩ below next, last, ending,
                      .read hPath hReal hNew hRead hBelow hSearch, hFirst.append hMore,
                      (hRun.trans hMiddle).trans hLast, fun hEnding => ?_⟩
                    exact (Relation.ReflTransGen.head (.read hPath hReal hNew hRead)
                      (hSteps rfl)).trans (hRest hEnding)
          · exact ⟨.empty, final, some failure, .fail hFails, .of_fails hFails,
              run_eq_of_fails hFails, by simp⟩

/-- A pass over a project searches it. -/
theorem exists_searchAll (env : Environment) (root : Path) (table : Table) (visited : List Place) :
    ∃ forest,
      SearchAll env root visited forest (parse env root table visited).1.visited
        (parse env root table visited).2 ∧
      Adds (.initial table visited) (parse env root table visited).1 forest.scripts := by
  cases hLumps : rootLumps env root with
  | error failure =>
      refine ⟨.empty, ?_⟩
      simp only [parse, hLumps]
      exact ⟨.fail hLumps, .nothing rfl rfl rfl⟩
  | ok lumps =>
      obtain ⟨forest, later, ending, hSearch, hAdds, hRun, -⟩ :=
        exists_search (.initial table visited, lumps.map .read) (lumps.map .read) []
          (List.append_nil _).symm
      change run env root (.initial table visited) (lumps.map .read) = _ at hRun
      refine ⟨forest, ?_⟩
      cases ending with
      | none =>
          rw [goOn, run] at hRun
          simp only [parse, hLumps, hRun]
          exact ⟨.lumps hLumps hSearch, ⟨hAdds.files, hAdds.table, hAdds.functions⟩⟩
      | some failure =>
          rw [goOn] at hRun
          simp only [parse, hLumps, hRun]
          exact ⟨.lumps hLumps hSearch, hAdds⟩

end Run

section Distinct

variable {env : Environment} {root : Path}

/-- The path of a task's own file can be written and read back. -/
def Task.Proper : Task → Prop
  | .read path => path.Proper
  | .follow _ including _ => including.Proper

/-- The path of a proper task below a proper root is proper. -/
theorem Task.Proper.path {task : Task} {path : Path} (hRoot : root.Proper) (h : task.Proper)
    (hPath : task.path? env root = .ok (some path)) : path.Proper := by
  cases task with
  | read lump =>
      cases hPath
      exact h
  | follow depth including target => exact resolveInclude_proper hRoot h hPath

theorem proper_of_mem_includeTasks {depth : Nat} {path : Path} {text : String} (h : path.Proper) :
    ∀ task ∈ includeTasks depth path text, task.Proper := by
  intro task hTask
  obtain ⟨target, -, rfl⟩ := mem_includeTasks.mp hTask
  exact h

/-- What a search does to the visited places: it keeps them, and each file that it reads is known by
a place of its own that is visited then and was not before. -/
structure Fresh (env : Environment) (visited final : List Place) (scripts : List Source.Script) :
    Prop where
  keeps : visited ⊆ final
  known : ∀ script ∈ scripts, ∃ place ∈ final, placeOf env script.identifier = .ok place ∧
    place ∉ visited
  distinct : (scripts.map fun script => placeOf env script.identifier).Nodup

/-- Nothing is fresh in an empty list of scripts. -/
theorem Fresh.nothing {visited final : List Place} (h : visited ⊆ final) :
    Fresh env visited final [] :=
  ⟨h, by simp, by simp⟩

/-- Scripts that are fresh to each of two stretches are fresh to both together. -/
theorem Fresh.append {visited middle final : List Place} {first second : List Source.Script}
    (hFirst : Fresh env visited middle first) (hSecond : Fresh env middle final second) :
    Fresh env visited final (first ++ second) where
  keeps := List.Subset.trans hFirst.keeps hSecond.keeps
  known := by
    intro script hScript
    rcases List.mem_append.mp hScript with hMem | hMem
    · obtain ⟨place, hPlace, hKnown, hNew⟩ := hFirst.known script hMem
      exact ⟨place, hSecond.keeps hPlace, hKnown, hNew⟩
    · obtain ⟨place, hPlace, hKnown, hNew⟩ := hSecond.known script hMem
      exact ⟨place, hPlace, hKnown, fun hOld => hNew (hFirst.keeps hOld)⟩
  distinct := by
    rw [List.map_append, List.nodup_append]
    refine ⟨hFirst.distinct, hSecond.distinct, ?_⟩
    intro place hPlace other hOther hSame
    obtain ⟨script, hScript, rfl⟩ := List.mem_map.mp hPlace
    obtain ⟨later, hLater, rfl⟩ := List.mem_map.mp hOther
    obtain ⟨old, hOld, hKnown, -⟩ := hFirst.known script hScript
    obtain ⟨new, -, hLaterKnown, hNew⟩ := hSecond.known later hLater
    rw [hKnown, hLaterKnown] at hSame
    exact hNew (Except.ok.inj hSame ▸ hOld)

/-- A search never visits a place twice: its scripts are fresh, and their places are kept. -/
theorem Search.fresh (hRoot : root.Proper) {status ending : Option Failure}
    {visited final : List Place} {tasks : List Task} {forest : Forest}
    (h : Search env root status visited tasks forest final ending)
    (hTasks : ∀ task ∈ tasks, task.Proper) : Fresh env visited final forest.scripts := by
  induction h with
  | done => exact .nothing (List.Subset.refl _)
  | ended => exact .nothing (List.Subset.refl _)
  | miss hPath hRest ih => exact ih fun task hTask => hTasks task (List.mem_cons_of_mem _ hTask)
  | skip hPath hReal hVisited hRest ih =>
      exact ih fun task hTask => hTasks task (List.mem_cons_of_mem _ hTask)
  | @read visited between final task rest below next middle ending path real text hPath hReal hNew
      hRead hBelow hRest ihBelow ihRest =>
      have hProper := (hTasks task List.mem_cons_self).path hRoot hPath
      have hFile : Fresh env visited (real.parts :: visited) [⟨path.toString, text⟩] := by
        refine ⟨List.subset_cons_self _ _, ?_, by simp⟩
        intro script hScript
        rw [List.mem_singleton.mp hScript]
        exact ⟨real.parts, List.mem_cons_self,
          placeOf_toString hProper (Task.resolveHome_of_realPath hReal), hNew⟩
      have hFirst := hFile.append (ihBelow (proper_of_mem_includeTasks hProper))
      exact hFirst.append (ihRest fun task hTask => hTasks task (List.mem_cons_of_mem _ hTask))
  | fail hFails =>
      apply Fresh.nothing
      cases hFails with
      | find hPath => exact List.Subset.refl _
      | resolve hPath hReal => exact List.Subset.refl _
      | read hPath hReal hNew hRead => exact List.subset_cons_self _ _

/-- No file is read twice. -/
theorem SearchAll.identifiers_nodup (hRoot : root.Proper) {visited final : List Place}
    {forest : Forest} {ending : Option Failure}
    (h : SearchAll env root visited forest final ending) :
    (forest.scripts.map (·.identifier)).Nodup := by
  cases h with
  | fail hLumps => exact List.nodup_nil
  | lumps hLumps hSearch =>
      have hFresh := hSearch.fresh hRoot (by
        intro task hTask
        obtain ⟨lump, hLump, rfl⟩ := List.mem_map.mp hTask
        exact rootLumps_proper hRoot hLumps hLump)
      apply List.Nodup.of_map (placeOf env)
      rw [List.map_map]
      exact hFresh.distinct

end Distinct

/-- The files of a project are scanned in order, depth first. -/
theorem parse_scans_depth_first (env : Environment) (root : String) (table : Table) (clear : Bool)
    (visited : List Place) :
    let start := if clear then Table.empty else table
    let pass := (parse env (.ofString root) start visited).1
    let failure? := (parse env (.ofString root) start visited).2
    ∃ forest : Forest,
      SearchAll env (.ofString root) visited forest pass.visited failure? ∧
      pass.files = forest.scripts.map (·.identifier) ∧ pass.files.Nodup ∧
      pass.table = (forest.scripts.map sourced).foldl Table.scan start ∧
      pass.functions = declaredCount (forest.scripts.map sourced) ∧
      ∀ including reached, forest.Through including reached →
        ∃ front middle back,
          forest.scripts = front ++ including :: (middle ++ reached :: back) ∧
          ∀ signature ∈ declared (sourced reached), ∃ winner,
            pass.table.atKey? signature.key = some winner ∧
            winner.source ≠ some including.identifier ∧
            ∃ script ∈ reached :: back, winner ∈ declared (sourced script) := by
  intro start pass failure?
  obtain ⟨forest, hSearch, hAdds⟩ := exists_searchAll env (.ofString root) start visited
  have hDistinct := hSearch.identifiers_nodup (Path.proper_ofString root)
  have hFiles : pass.files = forest.scripts.map (·.identifier) := hAdds.files
  have hFunctions := hAdds.functions
  rw [Pass.initial, Nat.zero_add] at hFunctions
  refine ⟨forest, hSearch, hFiles, hFiles ▸ hDistinct, hAdds.table, hFunctions, ?_⟩
  intro including reached hThrough
  obtain ⟨front, middle, back, hScripts⟩ := hThrough.precedes
  refine ⟨front, middle, back, hScripts, ?_⟩
  have hParts : forest.scripts = (front ++ including :: middle) ++ reached :: back := by
    simp [hScripts]
  intro signature hSignature
  obtain ⟨winner, hWinner, other, hOther, hDeclared⟩ := Table.exists_atKey?_of_later start
    ((front ++ including :: middle).map sourced)
    (List.mem_map_of_mem (List.mem_cons_self (l := back))) hSignature
  obtain ⟨script, hScript, rfl⟩ := List.mem_map.mp hOther
  refine ⟨winner, ?_, ?_, script, hScript, hDeclared⟩
  · rw [hAdds.table, hParts, List.map_append]
    exact hWinner
  · rw [Table.source_of_declared hDeclared]
    rw [hParts, List.map_append, List.nodup_append] at hDistinct
    intro hSame
    apply hDistinct.2.2 including.identifier (by simp) script.identifier
      (List.mem_map_of_mem hScript)
    exact (Option.some.inj hSame).symm

end SignatureIndex.Project
