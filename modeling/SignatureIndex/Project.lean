import SignatureIndex.Environment.Resolve
import SignatureIndex.Path.Within
import SignatureIndex.Project.Lump
import SignatureIndex.Scan
import SignatureIndex.Source.Include

/-! Reading a project: its root lumps and everything that they include, depth first. A pass reads
no file twice, whatever path leads to it: a file is known by the place that its path leads to once
the home directory is filled in. -/
namespace SignatureIndex.Project

open Text

/-- What a pass has done so far. `visited` holds the places by which the files that were read are
known. -/
structure Pass where
  table : Table
  visited : List Place
  files : List String
  functions : Nat
  missing : List (String × String)
  log : List LogLine

def Pass.initial (table : Table) (visited : List Place) : Pass :=
  ⟨table, visited, [], 0, [], []⟩

/-- Work that is left: a file to read, or an include directive to follow, in a file that so many
others include one inside of the other. -/
inductive Task where
  | read (path : Path)
  | follow (depth : Nat) (including : Path) (target : String)

/-- How many files include one another, one inside of the other, down to the file of a task. -/
def Task.depth : Task → Nat
  | read _ => 0
  | follow depth _ _ => depth + 1

def channel : String := "scan.project"

def Task.path? (env : Environment) (root : Path) : Task → Except Failure (Option Path)
  | read path => .ok (some path)
  | follow _ including target => resolveInclude env root including target

def Pass.miss (pass : Pass) : Task → Pass
  | .read _ => pass
  | .follow _ including target =>
    { pass with
      missing := pass.missing ++ [(including.toString, target)]
      log := pass.log ++ [⟨.warning, channel,
        "Include " ++ quotedString target ++ " from " ++ including.toString ++ " not found"⟩] }

def Pass.skip (pass : Pass) (path : Path) : Pass :=
  { pass with
    log := pass.log ++ [⟨.debug, channel, "Already parsed in this pass: " ++ path.toString⟩] }

def Pass.visit (pass : Pass) (place : Place) : Pass :=
  { pass with visited := place :: pass.visited }

def Pass.read (pass : Pass) (place : Place) (path : Path) (script : String) : Pass :=
  let (table, count, events) := Scan.intoTable pass.table script (some path.toString)
  { table
    visited := place :: pass.visited
    files := pass.files ++ [path.toString]
    functions := pass.functions + count
    missing := pass.missing
    log := pass.log ++ events.map Scan.Event.toLogLine }

/-- The tasks that the include directives of a script give, which so many others include. -/
def includeTasks (depth : Nat) (path : Path) (script : String) : List Task :=
  (Source.includes script.toList).map fun target => .follow depth path (String.ofList target)

/-- The real form of the path of a task's file. Files that include one another take room that the
links of the path may need. -/
def Task.realPath (env : Environment) (task : Task) (path : Path) : Except Failure Path :=
  if env.stack.includes < task.depth then .error .stackOverflow
  else env.resolveHomeWithin (env.stack.links - task.depth) path

theorem Task.resolveHome_of_realPath {env : Environment} {task : Task} {path real : Path}
    (h : task.realPath env path = .ok real) : env.resolveHome path = .ok real := by
  rw [realPath] at h
  split at h
  · cases h
  · exact Environment.resolveHome_of_within (Nat.sub_le ..) h

/-- Whether a path leads to a place that was not visited. -/
def isNew (env : Environment) (visited : List Place) (path : Path) : Bool :=
  match env.resolveHome path with
  | .ok real => !visited.contains real.parts
  | .error _ => false

/-- The number of paths that can be followed to places that were not visited. -/
noncomputable def unvisited (env : Environment) (visited : List Place) : Nat :=
  (Path.within FileTree.pathLimit).countP (isNew env visited)

/-- A stricter predicate that gives up one item counts fewer items. -/
theorem countP_lt_countP {α : Type} {p q : α → Bool} {list : List α} {item : α}
    (hImp : ∀ other, q other = true → p other = true) (hMem : item ∈ list)
    (hOld : p item = true) (hNew : q item = false) : list.countP q < list.countP p := by
  induction list with
  | nil => cases hMem
  | cons first rest ih =>
      rw [List.countP_cons, List.countP_cons]
      rcases List.mem_cons.mp hMem with rfl | hRest
      · have hLe := List.countP_mono_left fun other (_ : other ∈ rest) => hImp other
        rw [hOld, hNew, if_neg Bool.false_ne_true, if_pos rfl]
        omega
      · have hLt := ih hRest
        by_cases hFirst : q first = true
        · rw [if_pos hFirst, if_pos (hImp first hFirst)]
          omega
        · rw [if_neg hFirst]
          omega

/-- What is new to a longer list of visited places is new to a shorter one. -/
theorem isNew_cons {env : Environment} {visited : List Place} {place : Place} {path : Path}
    (h : isNew env (place :: visited) path = true) : isNew env visited path = true := by
  unfold isNew at *
  split at h
  · simp_all
  · cases h

/-- Only a path that the system accepts can be read. -/
theorem size_le_of_readScript {env : Environment} {path : Path} {script : String}
    (h : env.readScript path = .ok script) : utf8Size path.toString ≤ FileTree.pathLimit := by
  refine Nat.le_of_not_lt fun hLong => ?_
  unfold Environment.readScript Environment.readBytes Environment.find Environment.findText
    FileTree.find at h
  by_cases hNull : hasNull path.toString
  · simp [hNull, Except.map] at h
  · simp [hNull, hLong, Except.map] at h

/-- Each file that is read lowers the number of paths that are still unvisited. -/
theorem unvisited_cons_lt {env : Environment} {visited : List Place} {path real : Path}
    {script : String} (hReal : env.resolveHome path = .ok real)
    (hNew : visited.contains real.parts = false) (hRead : env.readScript path = .ok script) :
    unvisited env (real.parts :: visited) < unvisited env visited := by
  refine countP_lt_countP (fun _ => isNew_cons)
    (Path.mem_within (size_le_of_readScript hRead)) ?_ ?_
  · simp only [isNew, hReal, hNew]
    rfl
  · simp [isNew, hReal]

/-- Does the tasks in order. The tasks of a file that was just read come before all others. A
failure ends the pass with what it has done. -/
def run (env : Environment) (root : Path) (pass : Pass) : List Task → Pass × Option Failure
  | [] => (pass, none)
  | task :: rest =>
    match task.path? env root with
    | .error failure => (pass, some failure)
    | .ok none => run env root (pass.miss task) rest
    | .ok (some path) =>
      match _hReal : task.realPath env path with
      | .error failure => (pass, some failure)
      | .ok real =>
        if _hVisited : pass.visited.contains real.parts then run env root (pass.skip path) rest
        else
          match _hRead : env.readScript path with
          | .error failure => (pass.visit real.parts, some failure)
          | .ok script =>
            run env root (pass.read real.parts path script)
              (includeTasks task.depth path script ++ rest)
termination_by tasks => (unvisited env pass.visited, tasks.length)
decreasing_by
  · cases task <;> exact Prod.Lex.right _ (by simp)
  · exact Prod.Lex.right _ (by simp)
  · exact Prod.Lex.left _ _ (unvisited_cons_lt (Task.resolveHome_of_realPath _hReal)
      (by simpa using _hVisited) _hRead)

/-- Reads a project into a table. `visited` holds places that are not read again. -/
def parse (env : Environment) (root : Path) (table : Table) (visited : List Place) :
    Pass × Option Failure :=
  let pass := Pass.initial table visited
  match rootLumps env root with
  | .error failure => (pass, some failure)
  | .ok lumps =>
    match run env root pass (lumps.map .read) with
    | (final, some failure) => (final, some failure)
    | (final, none) =>
      let summary := "Parsed " ++ toString final.functions ++ " functions from " ++
        toString final.files.length ++ " files under " ++ root.toString
      ({ final with log := final.log ++ [⟨.info, channel, summary⟩] }, none)

end SignatureIndex.Project
