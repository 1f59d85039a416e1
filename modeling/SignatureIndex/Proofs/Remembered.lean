import SignatureIndex.Proofs.Operation

/-! Remembered roots and the table. A root is remembered only after its whole project was read, so
when a document is opened whose root is remembered, the signatures of the project are in the table
unless an operation emptied that since. Remembered roots are never forgotten, so such an operation
leaves a project that is not loaded and that opening its documents does not load again. -/
namespace SignatureIndex.Session

/-- A pass over the project below a root finds a signature under a key. -/
def Extracts (env : Environment) (root : Path) (key : String) : Prop :=
  ((Project.parse env root .empty []).1.table.atKey? key).isSome

section Completed

variable {env : Environment} {session : Session} {op : Operation} {path root : Path}

/-- A directory that a path leads to is its real form. -/
theorem resolveHome_of_directory? (h : directory? env path = some root) :
    env.resolveHome path = .ok root := by
  unfold directory? at h
  split at h
  · next real hReal =>
      split at h
      · cases h
        exact hReal
      · cases h
  · cases h

/-- The root that is found is one of the directories that were tried. -/
theorem rootAmong_mem {directories : List Path} (h : rootAmong env directories = .ok (some root)) :
    root ∈ directories := by
  induction directories with
  | nil => cases h
  | cons directory rest ih =>
      rw [rootAmong] at h
      split at h
      · cases h
      · exact List.mem_cons_of_mem directory (ih h)
      · cases h
        exact List.mem_cons_self

theorem projectRoot_proper (hPath : path.Proper) (h : projectRoot env path = .ok (some root)) :
    root.Proper := by
  unfold projectRoot at h
  split at h
  · cases h
  · next real hReal =>
      have hProper := Environment.resolveHome_proper hPath hReal
      obtain ⟨count, -, rfl⟩ := List.mem_map.mp (rootAmong_mem h)
      exact fun part hPart => hProper part (List.mem_of_mem_take hPart)

/-- The project of an operation has a proper path. -/
theorem project?_proper (h : op.project? env session = some path) : path.Proper := by
  cases op with
  | parseProject asked clear =>
      cases h
      exact Path.proper_ofString asked
  | openDocument language asked =>
      simp only [Operation.project?, documentProject?] at h
      split at h
      · cases h
      · next text hText =>
          split at h
          · cases h
          · split at h
            · next found hFound =>
                split at h
                · split at h
                  · cases h
                  · cases h
                    exact projectRoot_proper (Path.proper_ofString text) hFound
                · cases h
            · cases h
  | parseArchive asked => cases h
  | listFiles asked count => cases h
  | parseFile asked clear => cases h

/-- The table has no part in which project an operation reads. -/
theorem apply_of_project? (h : op.project? env session = some path) (table : Table) :
    ∃ clear, op.apply env (session.withTable table) =
      ((session.withTable table).parseProject env path clear).session := by
  cases op with
  | parseProject asked clear =>
      cases h
      exact ⟨clear, rfl⟩
  | openDocument language asked =>
      refine ⟨false, (openDocument_session env (session.withTable table) language asked).trans ?_⟩
      have hProject : documentProject? env (session.withTable table) language asked = some path := h
      rw [hProject, Option.elim]
  | parseArchive asked => cases h
  | listFiles asked count => cases h
  | parseFile asked clear => cases h

/-- A project is completed if it is a directory over which a pass runs to its end. -/
theorem completes?_eq_some (h : op.completes? env session = some root) :
    ∃ path, op.project? env session = some path ∧ directory? env path = some root ∧
      (Project.parse env root .empty []).2 = none := by
  obtain ⟨path, hPath, hReadable⟩ := Option.bind_eq_some_iff.mp h
  obtain ⟨hRoot, hKept⟩ := Option.filter_eq_some_iff.mp hReadable
  exact ⟨path, hPath, hRoot, Option.isNone_iff_eq_none.mp (Bool.and_eq_true_iff.mp hKept).1⟩

theorem completes?_proper (h : op.completes? env session = some root) : root.Proper := by
  obtain ⟨path, hPath, hRoot, -⟩ := completes?_eq_some h
  exact Environment.resolveHome_proper (project?_proper hPath) (resolveHome_of_directory? hRoot)

theorem knownAs?_eq_some_iff {known : Path} :
    knownAs? env root = some known ↔ env.resolveHome root = .ok known := by
  unfold knownAs?
  cases env.resolveHome root with
  | error failure => simp [Except.toOption]
  | ok real => simp [Except.toOption]

/-- What is remembered is the real form of a root that was completed. -/
theorem remembers?_eq_some {known : Path} (h : op.remembers? env session = some known) :
    ∃ root, op.completes? env session = some root ∧ env.resolveHome root = .ok known := by
  obtain ⟨root, hRoot, hKnown⟩ := Option.bind_eq_some_iff.mp h
  exact ⟨root, hRoot, knownAs?_eq_some_iff.mp hKnown⟩

/-- An operation that reads a whole project stores all that the project holds. -/
theorem stores_of_completes? {key : String} (h : op.completes? env session = some root)
    (hKey : Extracts env root key) : op.Stores env session key := by
  obtain ⟨path, hPath, hRoot, -⟩ := completes?_eq_some h
  obtain ⟨clear, hApply⟩ := apply_of_project? hPath .empty
  have hTable : (op.apply env (session.withTable .empty)).table =
      (Project.parse env root .empty []).1.table := by
    rw [hApply, parseProject_session, hRoot, Option.elim]
    change (afterPass _ (knownAs? env root)
      (Project.parse env root (if clear then .empty else .empty) [])).table = _
    rw [ite_self]
    rcases Project.parse env root .empty [] with ⟨pass, _ | failure⟩
    · rfl
    · rfl
  rw [Operation.Stores, hTable]
  exact hKey

end Completed

/-- A remembered root: the session does nothing when a document below it is opened, and some
operation read the whole project, maybe through another path to it. If none has emptied the table
since, then all that was read is in the table; in general the table holds the keys stored since it
was emptied. -/
theorem remembered_root_is_loaded (env : Environment) (config : Config) (table : Table)
    (ops : List Operation) (text : String) (root real : Path) (hText : text ≠ "")
    (hRoot : projectRoot env (.ofString text) = .ok (some root))
    (hReal : env.resolveHome root = .ok real)
    (hKnown : real.toString ∈ (run env (start config table) ops).parsedRoots) :
    let session := run env (start config table) ops
    let completed (read : Path) (before : Session) (op : Operation) :=
      op.completes? env before = some read
    let spares (op : Operation) := op.empties env config = false
    session.openDocument env (some config.language) (some text) =
        session.unchanged (.ok none) [] ∧
      (∃ read, env.resolveHome read = .ok real ∧
        KeptSince env (start config table) ops (completed read) (fun _ => True)) ∧
      (∀ read, KeptSince env (start config table) ops (completed read) spares →
        ∀ key, Extracts env read key → (session.table.atKey? key).isSome) ∧
      ∀ key, (session.table.atKey? key).isSome ↔
        ((table.atKey? key).isSome ∧ ∀ op ∈ ops, spares op) ∨
          KeptSince env (start config table) ops (fun before op => op.Stores env before key)
            spares := by
  intro session completed spares
  have hHolds := fun key => isSome_atKey?_run env (start config table) ops key
  refine ⟨?_, ?_, ?_, hHolds⟩
  · have hConfig : session.config = config := run_config (start config table) ops
    have hFilter : (some text).filter (· ≠ "") = some text := by simp [Option.filter, hText]
    simp only [openDocument, hFilter, hConfig, hRoot, hReal, ne_eq, not_true, if_false]
    exact if_pos hKnown
  · rcases (mem_parsedRoots_run env (start config table) ops _).mp hKnown with hNone | hSome
    · cases hNone
    · obtain ⟨before, op, after, hOps, ⟨known, hOp, hName⟩, hAfter⟩ := hSome
      obtain ⟨read, hRead, hSettled⟩ := remembers?_eq_some hOp
      have hProper : real.Proper := Environment.resolveHome_proper
        (projectRoot_proper (Path.proper_ofString text) hRoot) hReal
      obtain rfl : known = real := Path.toString_injective
        (Environment.resolveHome_proper (completes?_proper hRead) hSettled) hProper hName
      exact ⟨read, hSettled, before, op, after, hOps, hRead, hAfter⟩
  · rintro read ⟨before, op, after, hOps, hOp, hAfter⟩ key hKey
    exact (hHolds key).mpr (.inr ⟨before, op, after, hOps, stores_of_completes? hOp hKey, hAfter⟩)

/-- A project with one function, and a script without any beside it. -/
def smallProject : Environment where
  tree := .ofEntries [(["mod"], .directory),
    (["mod", "zscript.zs"], .file (Text.encodeUtf8 "class A\n\x7b\n  int F();\n\x7d".toList)),
    (["other.zs"], .file [])]
  working := []
  stands := rfl

/-- The script of the small project, and where it is. -/
def smallLump : Path × String :=
  (⟨.slash, ["mod", "zscript.zs"]⟩, "class A\n\x7b\n  int F();\n\x7d")

def smallPass : Project.Pass :=
  let read := (Project.Pass.initial .empty []).read smallLump.1.parts smallLump.1 smallLump.2
  { read with log := read.log ++ [⟨.info, Project.channel,
    "Parsed " ++ toString read.functions ++ " functions from " ++ toString read.files.length ++
      " files under " ++ (Path.ofString "/mod").toString⟩] }

/-- The pass over the small project, evaluated. -/
theorem parse_smallProject_eq :
    Project.parse smallProject (.ofString "/mod") .empty [] = (smallPass, none) := by
  let read := (Project.Pass.initial .empty []).read smallLump.1.parts smallLump.1 smallLump.2
  have hLumps : Project.rootLumps smallProject (.ofString "/mod") = .ok [smallLump.1] := by
    decide +kernel
  have hStep : Project.Step smallProject (.ofString "/mod")
      (.initial .empty [], [.read smallLump.1])
      (read, Project.includeTasks 0 smallLump.1 smallLump.2 ++ []) :=
    have hReal : smallProject.resolveHome smallLump.1 = .ok smallLump.1 := by decide +kernel
    .read rfl hReal (by decide) (by decide +kernel)
  have hIncludes : Source.includes smallLump.2.toList = [] := by decide +kernel
  have hRun : Project.run smallProject (.ofString "/mod") (.initial .empty [])
      ([smallLump.1].map .read) = (read, none) := by
    rw [List.map_singleton, Project.run_eq_of_step hStep, Project.includeTasks, hIncludes]
    rw [List.map_nil, List.append_nil, Project.run]
  exact Project.parse_eq_ok_iff.mpr ⟨_, read, hLumps, hRun, rfl⟩

theorem parse_smallProject :
    (Project.parse smallProject (.ofString "/mod") .empty []).2 = none ∧
      Extracts smallProject (.ofString "/mod") "f" := by
  have hKey : (smallPass.table.atKey? "f").isSome := by decide +kernel
  rw [Extracts, parse_smallProject_eq]
  exact ⟨rfl, hKey⟩

/-- Opens the document of the small project. -/
def openingSmall : Operation :=
  .openDocument (some "zscript") (some "/mod/zscript.zs")

/-- What opening the document learns from the files of the small project. -/
theorem answers_openingSmall :
    projectRoot smallProject (.ofString "/mod/zscript.zs") = .ok (some (.ofString "/mod")) ∧
      smallProject.resolveHome (.ofString "/mod") = .ok (.ofString "/mod") ∧
      openingSmall.project? smallProject (start .default .empty) = some (.ofString "/mod") ∧
      directory? smallProject (.ofString "/mod") = some (.ofString "/mod") := by
  decide +kernel

theorem projectRoot_smallProject :
    projectRoot smallProject (.ofString "/mod/zscript.zs") = .ok (some (.ofString "/mod")) :=
  answers_openingSmall.1

theorem resolveHome_smallProject :
    smallProject.resolveHome (.ofString "/mod") = .ok (.ofString "/mod") :=
  answers_openingSmall.2.1

theorem completes?_openingSmall :
    openingSmall.completes? smallProject (start .default .empty) = some (.ofString "/mod") := by
  obtain ⟨-, -, hProject, hRoot⟩ := answers_openingSmall
  have hReadable : readable? smallProject (.ofString "/mod") = some (.ofString "/mod") := by
    refine Option.filter_eq_some_iff.mpr ⟨hRoot, ?_⟩
    rw [parse_smallProject.1, knownAs?_eq_some_iff.mpr resolveHome_smallProject]
    rfl
  rw [Operation.completes?, hProject]
  exact hReadable

theorem remembers?_openingSmall :
    openingSmall.remembers? smallProject (start .default .empty) = some (.ofString "/mod") := by
  rw [Operation.remembers?, completes?_openingSmall]
  exact knownAs?_eq_some_iff.mpr resolveHome_smallProject

/-- The small project stays remembered, whatever is done next. -/
theorem mem_parsedRoots_small (later : Operation) :
    (Path.ofString "/mod").toString ∈
      (run smallProject (start .default .empty) [openingSmall, later]).parsedRoots :=
  (mem_parsedRoots_run _ _ _ _).mpr
    (.inr ⟨[], openingSmall, [later], rfl, ⟨_, remembers?_openingSmall, rfl⟩, fun _ _ => trivial⟩)

/-- A root that is remembered has its signatures in the table. -/
theorem small_root_is_loaded :
    let session := run smallProject (start .default .empty)
      [openingSmall, .parseFile "/other.zs" false]
    "/mod/zscript.zs" ≠ "" ∧
      projectRoot smallProject (.ofString "/mod/zscript.zs") = .ok (some (.ofString "/mod")) ∧
      smallProject.resolveHome (.ofString "/mod") = .ok (.ofString "/mod") ∧
      (Path.ofString "/mod").toString ∈ session.parsedRoots ∧
      session.openDocument smallProject (some "zscript") (some "/mod/zscript.zs") =
        session.unchanged (.ok none) [] ∧
      (session.table.atKey? "f").isSome := by
  intro session
  have hKnown := mem_parsedRoots_small (.parseFile "/other.zs" false)
  obtain ⟨hNothing, -, hLoaded, -⟩ := remembered_root_is_loaded smallProject .default .empty
    [openingSmall, .parseFile "/other.zs" false] "/mod/zscript.zs" (.ofString "/mod")
    (.ofString "/mod") (by decide) projectRoot_smallProject resolveHome_smallProject hKnown
  refine ⟨by decide, projectRoot_smallProject, resolveHome_smallProject, hKnown, hNothing, ?_⟩
  refine hLoaded _ ⟨[], openingSmall, _, rfl, completes?_openingSmall, ?_⟩ "f"
    parse_smallProject.2
  decide +kernel

/-- The root of a project stays remembered when reading another file empties the table. -/
theorem remembered_root_not_loaded :
    ¬ ∀ (env : Environment) (config : Config) (table : Table) (ops : List Operation)
      (text : String) (root real : Path), text ≠ "" →
        projectRoot env (.ofString text) = .ok (some root) → env.resolveHome root = .ok real →
        real.toString ∈ (run env (start config table) ops).parsedRoots →
        ∀ key, Extracts env real key →
          ((run env (start config table) ops).table.atKey? key).isSome := by
  intro hAll
  have hEmpty (session : Session) :
      ((Operation.parseFile "/other.zs" true).apply smallProject session).table = .empty := by
    have hScript : script? smallProject (.ofString "/other.zs") =
        some (.ofString "/other.zs", "") := by decide +kernel
    have hNone : Scan.signatures "".toList (some (Path.ofString "/other.zs").toString) = [] := by
      decide +kernel
    rw [Operation.apply, parseFile_session, hScript, Option.elim, hNone]
    rfl
  have hHolds := hAll smallProject .default .empty [openingSmall, .parseFile "/other.zs" true]
    "/mod/zscript.zs" (.ofString "/mod") (.ofString "/mod") (by decide) projectRoot_smallProject
    resolveHome_smallProject (mem_parsedRoots_small _) "f" parse_smallProject.2
  have hTable : (run smallProject (start .default .empty)
      [openingSmall, .parseFile "/other.zs" true]).table = .empty := hEmpty _
  rw [hTable] at hHolds
  cases hHolds

end SignatureIndex.Session
