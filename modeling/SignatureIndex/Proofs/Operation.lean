import SignatureIndex.Proofs.PassTable
import SignatureIndex.Proofs.Resolve
import SignatureIndex.Session

/-! Runs of a session. What an operation stores does not depend on the table it meets, so a key is
in the table after a run exactly if some operation stored it and no later one emptied the table.
A root is remembered exactly if some operation read the whole project below it. -/
namespace SignatureIndex.Session

/-- What a session is asked to do. -/
inductive Operation where
  | parseArchive (asked : Option String)
  | listFiles (asked : Option String) (count : Option Int)
  | parseFile (path : String) (clear : Bool)
  | parseProject (path : String) (clear : Bool)
  | openDocument (language path : Option String)

def withTable (session : Session) (table : Table) : Session :=
  { session with table }

/-- The root of the project that opening a document reads. -/
def documentProject? (env : Environment) (session : Session) (language path : Option String) :
    Option Path :=
  match path.filter (· ≠ "") with
  | none => none
  | some text =>
    if language ≠ some session.config.language then none
    else match projectRoot env (.ofString text) with
      | .ok (some root) =>
        match env.resolveHome root with
        | .ok real => if real.toString ∈ session.parsedRoots then none else some root
        | .error _ => none
      | _ => none

/-- The archive that is asked for, with its path. -/
def archive? (env : Environment) (config : Config) (asked : Option String) :
    Option (Path × Archive) :=
  match config.archivePath env asked with
  | .ok (some path) =>
    match Archive.ofFile env path with
    | .ok archive => some (path, archive)
    | .error _ => none
  | _ => none

/-- The file that a path leads to, with its text. -/
def script? (env : Environment) (path : Path) : Option (Path × String) :=
  match env.expandHome path with
  | .ok file =>
    match env.isFile file with
    | .ok true =>
      match env.readScript file with
      | .ok text => some (file, text)
      | .error _ => none
    | _ => none
  | .error _ => none

/-- The directory that a path leads to. -/
def directory? (env : Environment) (path : Path) : Option Path :=
  match env.resolveHome path with
  | .ok root =>
    match env.isDirectory root with
    | .ok true => some root
    | _ => none
  | .error _ => none

/-- The path by which the root of a project is remembered. -/
def knownAs? (env : Environment) (root : Path) : Option Path :=
  (env.resolveHome root).toOption

/-- The root of the project at a path, if the whole project can be read and remembered. -/
def readable? (env : Environment) (path : Path) : Option Path :=
  (directory? env path).filter fun root =>
    (Project.parse env root .empty []).2.isNone && (knownAs? env root).isSome

namespace Operation

def apply (env : Environment) (session : Session) : Operation → Session
  | parseArchive asked => (session.parseArchive env asked).session
  | listFiles asked count => (session.listFiles env asked count).session
  | parseFile path clear => (session.parseFile env (.ofString path) clear).session
  | parseProject path clear => (session.parseProject env (.ofString path) clear).session
  | openDocument language path => (session.openDocument env language path).session

/-- Whether an operation empties the table: an archive that can be opened does, a file that can be
read and a directory do if asked for. -/
def empties (env : Environment) (config : Config) : Operation → Bool
  | parseArchive asked => (archive? env config asked).isSome
  | parseFile path clear => (script? env (.ofString path)).isSome && clear
  | parseProject path clear => (directory? env (.ofString path)).isSome && clear
  | listFiles _ _ | openDocument _ _ => false

/-- The path of the project that an operation reads. -/
def project? (env : Environment) (session : Session) : Operation → Option Path
  | parseProject path _ => some (.ofString path)
  | openDocument language path => documentProject? env session language path
  | _ => none

/-- The root of the project that an operation reads as a whole. -/
def completes? (env : Environment) (session : Session) (op : Operation) : Option Path :=
  (op.project? env session).bind (readable? env)

/-- The path by which an operation remembers the project that it reads as a whole. -/
def remembers? (env : Environment) (session : Session) (op : Operation) : Option Path :=
  (op.completes? env session).bind (knownAs? env)

/-- The operation stores a signature under a key. -/
def Stores (env : Environment) (session : Session) (op : Operation) (key : String) : Prop :=
  ((op.apply env (session.withTable .empty)).table.atKey? key).isSome

end Operation

def run (env : Environment) (session : Session) (ops : List Operation) : Session :=
  ops.foldl (Operation.apply env) session

section Effect

variable (env : Environment)

theorem tellArchiveFailure_session (session : Session) (report : Report) (log : List LogLine)
    (what : String) (path : Path) (failure : Failure) :
    (session.tellArchiveFailure report log what path failure).session = session := by
  unfold tellArchiveFailure
  split
  · rfl
  · rfl

theorem tellProjectFailure_session (session : Session) (root : Path) (pass : Project.Pass)
    (failure : Failure) :
    (session.tellProjectFailure root pass failure).session = session.withTable pass.table := by
  unfold tellProjectFailure
  simp only
  split
  · rfl
  · rfl

/-- What an archive adds to a table depends on the archive alone. -/
theorem readVisits_session (path : Path) (visits : List Archive.Visit) :
    ∃ found, ∀ (session : Session) (report : Report) (log : List LogLine),
      (readVisits path session report log visits).session =
        session.withTable (session.table.storeAll found) := by
  induction visits with
  | nil => exact ⟨[], fun _ _ _ => rfl⟩
  | cons visit rest ih =>
      obtain ⟨found, hFound⟩ := ih
      cases visit with
      | skipped name => exact ⟨found, fun session report _ => hFound session report _⟩
      | failed failure =>
          exact ⟨[], fun session report log =>
            session.tellArchiveFailure_session report log "Error parsing" path failure⟩
      | script script =>
          let first := Scan.signatures script.text.toList (some script.identifier)
          refine ⟨first ++ found, fun session report log => ?_⟩
          rw [Table.storeAll_append]
          exact hFound (session.withTable (session.table.storeAll first)) _ _

/-- Listing an archive leaves the session alone. -/
theorem listVisits_session (path : Path) (count : Option Int) (session : Session)
    (report : Report) (log : List LogLine) (visits : List Archive.Visit) :
    (listVisits path count session report log visits).session = session := by
  induction visits generalizing report log with
  | nil => rfl
  | cons visit rest ih =>
      cases visit with
      | skipped name => exact ih report _
      | failed failure =>
          exact session.tellArchiveFailure_session report log "Error listing files in" path failure
      | script script => exact ih _ log

theorem listFiles_session (session : Session) (asked : Option String) (count : Option Int) :
    (session.listFiles env asked count).session = session := by
  unfold listFiles
  split
  · rfl
  · rfl
  · split
    · exact tellArchiveFailure_session _ _ _ _ _ _
    · exact listVisits_session _ _ _ _ _ _

/-- Opening a document does to a session what reading its project does. -/
theorem openDocument_session (session : Session) (language path : Option String) :
    (session.openDocument env language path).session =
      (documentProject? env session language path).elim session
        fun root => (session.parseProject env root false).session := by
  unfold openDocument documentProject?
  cases path.filter (· ≠ "") with
  | none => rfl
  | some text =>
      by_cases hLanguage : language ≠ some session.config.language
      · simp only [if_pos hLanguage, unchanged, Option.elim]
      · simp only [if_neg hLanguage]
        rcases projectRoot env (.ofString text) with failure | (_ | root)
        · rfl
        · rfl
        · cases hReal : env.resolveHome root with
          | error failure => simp only [hReal, unchanged, Option.elim]
          | ok real =>
              by_cases hKnown : real.toString ∈ session.parsedRoots
              · simp only [hReal, if_pos hKnown, unchanged, Option.elim]
              · simp only [hReal, if_neg hKnown, Option.elim]

/-- Reading a file stores what its script declares, into the empty table if asked to. -/
theorem parseFile_session (session : Session) (path : Path) (clear : Bool) :
    (session.parseFile env path clear).session =
      (script? env path).elim session fun script => session.withTable
        ((if clear then .empty else session.table).storeAll
          (Scan.signatures script.2.toList (some script.1.toString))) := by
  unfold parseFile script?
  cases env.expandHome path with
  | error failure => rfl
  | ok file =>
      rcases hIs : env.isFile file with failure | (_ | _)
      · simp only [hIs, unchanged, Option.elim]
      · simp only [hIs, unchanged, Option.elim]
      · cases hRead : env.readScript file with
        | error failure =>
            simp only [hIs, hRead, unchanged, Option.elim]
            split
            · rfl
            · rfl
        | ok text =>
            simp only [hIs, hRead]
            rfl

/-- The roots with the one that is remembered, if there is one. -/
def remember (roots : List String) (known : Option Path) : List String :=
  known.elim roots fun path => addRoot roots path.toString

/-- The session after a pass over the project below a root. -/
def afterPass (session : Session) (known : Option Path) :
    Project.Pass × Option Failure → Session
  | (pass, none) => ⟨session.config, pass.table, remember session.parsedRoots known⟩
  | (pass, some _) => ⟨session.config, pass.table, session.parsedRoots⟩

/-- Reading a project leaves what a pass over its root leaves. -/
theorem parseProject_session (session : Session) (path : Path) (clear : Bool) :
    (session.parseProject env path clear).session =
      (directory? env path).elim session fun root => session.afterPass (knownAs? env root)
        (Project.parse env root (if clear then .empty else session.table) []) := by
  unfold parseProject directory?
  cases env.resolveHome path with
  | error failure => rfl
  | ok root =>
      rcases hIs : env.isDirectory root with failure | (_ | _)
      · simp only [hIs, unchanged, Option.elim]
      · simp only [hIs, unchanged, Option.elim]
      · simp only [hIs, Option.elim]
        rcases Project.parse env root (if clear then .empty else session.table) [] with
          ⟨pass, _ | failure⟩
        · cases hKnown : env.resolveHome root with
          | error failure =>
              simp only [hKnown, knownAs?, Except.toOption, afterPass, remember, Option.elim]
              exact tellProjectFailure_session session root pass failure
          | ok known => simp only [hKnown, knownAs?, Except.toOption, afterPass, remember,
              Option.elim]
        · exact tellProjectFailure_session session root pass failure

/-- All that an effect on a session does: it stores some signatures, the same ones whatever the
table is, in that table or in the empty one, and remembers the root of a project that it read. -/
def Acts (effect : Session → Session) (session : Session) (empties : Bool)
    (known : Option Path) : Prop :=
  ∃ found, ∀ table, effect (session.withTable table) =
    ⟨session.config, (if empties then Table.empty else table).storeAll found,
      remember session.parsedRoots known⟩

theorem Acts.of_unchanged {effect : Session → Session} {session : Session}
    (h : ∀ table, effect (session.withTable table) = session.withTable table) :
    Acts effect session false none :=
  ⟨[], h⟩

/-- Reading an archive empties the table, if the archive can be opened. -/
theorem parseArchive_acts (session : Session) (asked : Option String) :
    Acts (fun before => (before.parseArchive env asked).session) session
      (archive? env session.config asked).isSome none := by
  unfold archive?
  rcases hPath : session.config.archivePath env asked with failure | (_ | path)
  · refine .of_unchanged fun table => ?_
    simp only [parseArchive, withTable, hPath, unchanged]
  · refine .of_unchanged fun table => ?_
    simp only [parseArchive, withTable, hPath, withoutArchive, unchanged]
  · cases hArchive : Archive.ofFile env path with
    | error failure =>
        simp only [hArchive]
        refine .of_unchanged fun table => ?_
        simp only [parseArchive, withTable, hPath, hArchive, tellArchiveFailure_session]
    | ok archive =>
        simp only [hArchive]
        obtain ⟨found, hFound⟩ := readVisits_session path (archive.visits session.selection)
        refine ⟨found, fun table => ?_⟩
        simp only [parseArchive, withTable, hPath, hArchive]
        exact hFound (session.withTable .empty) _ _

/-- Reading a file empties the table only if asked to, and remembers no root. -/
theorem parseFile_acts (session : Session) (path : Path) (clear : Bool) :
    Acts (fun before => (before.parseFile env path clear).session) session
      ((script? env path).isSome && clear) none := by
  cases hScript : script? env path with
  | none =>
      refine .of_unchanged fun table => ?_
      rw [parseFile_session, hScript, Option.elim]
  | some script =>
      refine ⟨Scan.signatures script.2.toList (some script.1.toString), fun table => ?_⟩
      refine (parseFile_session env (session.withTable table) path clear).trans ?_
      rw [hScript]
      rfl

/-- Reading a project remembers its root, if it can be read to the end. -/
theorem parseProject_acts (session : Session) (path : Path) (clear : Bool) :
    Acts (fun before => (before.parseProject env path clear).session) session
      ((directory? env path).isSome && clear) ((readable? env path).bind (knownAs? env)) := by
  cases hRoot : directory? env path with
  | none =>
      simp only [readable?, hRoot]
      refine .of_unchanged fun table => ?_
      rw [parseProject_session, hRoot, Option.elim]
  | some root =>
      obtain ⟨found, hFound⟩ := Project.parse_storeAll env root []
      refine ⟨found, fun table => ?_⟩
      refine (parseProject_session env (session.withTable table) path clear).trans ?_
      rw [hRoot, Option.elim, hFound]
      cases hFailure : (Project.parse env root .empty []).2 with
      | none =>
          cases hKnown : knownAs? env root with
          | none =>
              simp only [readable?, hRoot, Option.filter, hFailure, hKnown]
              rfl
          | some known =>
              simp only [readable?, hRoot, Option.filter, hFailure, hKnown, Option.isNone_none,
                Option.isSome_some, Bool.and_self, if_true, Option.bind_some]
              rfl
      | some failure =>
          simp only [readable?, hRoot, Option.filter, hFailure]
          rfl

theorem openDocument_acts (session : Session) (language path : Option String) :
    Acts (fun before => (before.openDocument env language path).session) session false
      ((Operation.openDocument language path).remembers? env session) := by
  -- which project is read does not depend on the table
  have hEffect (table : Table) :
      ((session.withTable table).openDocument env language path).session =
        (documentProject? env session language path).elim (session.withTable table)
          fun root => ((session.withTable table).parseProject env root false).session :=
    openDocument_session env (session.withTable table) language path
  simp only [Operation.remembers?, Operation.completes?, Operation.project?]
  cases hProject : documentProject? env session language path with
  | none =>
      refine .of_unchanged fun table => ?_
      rw [hEffect, hProject, Option.elim]
  | some root =>
      obtain ⟨found, hFound⟩ := parseProject_acts env session root false
      refine ⟨found, fun table => ?_⟩
      refine (hEffect table).trans ?_
      rw [Bool.and_false] at hFound
      rw [hProject]
      exact hFound table

/-- What an operation does to a session, the operations taken together. -/
theorem apply_acts (session : Session) (op : Operation) :
    Acts (fun before => op.apply env before) session (op.empties env session.config)
      (op.remembers? env session) := by
  cases op with
  | parseArchive asked => exact parseArchive_acts env session asked
  | listFiles asked count => exact .of_unchanged fun table => listFiles_session env _ asked count
  | parseFile path clear => exact parseFile_acts env session (.ofString path) clear
  | parseProject path clear => exact parseProject_acts env session (.ofString path) clear
  | openDocument language path => exact openDocument_acts env session language path

end Effect

/-- At some moment of a run an operation did something, and all operations after it keep that. -/
def KeptSince (env : Environment) (session : Session) (ops : List Operation)
    (did : Session → Operation → Prop) (keeps : Operation → Prop) : Prop :=
  ∃ before op after, ops = before ++ op :: after ∧ did (run env session before) op ∧
    ∀ later ∈ after, keeps later

section Run

variable {env : Environment} {session : Session} {ops : List Operation}
variable {did : Session → Operation → Prop} {keeps : Operation → Prop}

/-- Something kept since is done by the first operation and kept by the others, or done later. -/
theorem keptSince_cons {first : Operation} :
    KeptSince env session (first :: ops) did keeps ↔
      (did session first ∧ ∀ later ∈ ops, keeps later) ∨
        KeptSince env (first.apply env session) ops did keeps := by
  constructor
  · rintro ⟨before, op, after, hOps, hDid, hKeeps⟩
    cases before with
    | nil =>
        cases hOps
        exact .inl ⟨hDid, hKeeps⟩
    | cons _ before =>
        cases hOps
        exact .inr ⟨before, op, after, rfl, hDid, hKeeps⟩
  · rintro (⟨hDid, hKeeps⟩ | ⟨before, op, after, rfl, hDid, hKeeps⟩)
    · exact ⟨[], first, ops, rfl, hDid, hKeeps⟩
    · exact ⟨first :: before, op, after, rfl, hDid, hKeeps⟩

theorem apply_config (session : Session) (op : Operation) :
    (op.apply env session).config = session.config := by
  obtain ⟨found, hFound⟩ := apply_acts env session op
  have hSame : op.apply env session = _ := hFound session.table
  rw [hSame]

/-- What holds after a run, if it holds after an operation exactly if the operation brought it
about, or it held before and the operation keeps it. -/
theorem run_iff {config : Config} (Holds : Session → Prop)
    (hStep : ∀ session op, session.config = config →
      (Holds (op.apply env session) ↔ did session op ∨ (Holds session ∧ keeps op)))
    (hConfig : session.config = config) :
    Holds (run env session ops) ↔
      (Holds session ∧ ∀ op ∈ ops, keeps op) ∨ KeptSince env session ops did keeps := by
  induction ops generalizing session with
  | nil =>
      have hNone : ¬ KeptSince env session [] did keeps := by
        rintro ⟨before, op, after, hOps, -⟩
        simp at hOps
      simp [run, hNone]
  | cons first rest ih =>
      have hNext : (first.apply env session).config = config :=
        (apply_config session first).trans hConfig
      change Holds (run env (first.apply env session) rest) ↔ _
      rw [ih hNext, hStep session first hConfig, keptSince_cons, List.forall_mem_cons]
      tauto

/-- A key is in the table after an operation exactly if the operation stored it, or it was in the
table and the operation did not empty that. -/
theorem isSome_atKey?_apply (session : Session) (op : Operation) (key : String) :
    ((op.apply env session).table.atKey? key).isSome ↔
      op.Stores env session key ∨
        ((session.table.atKey? key).isSome ∧ op.empties env session.config = false) := by
  obtain ⟨found, hFound⟩ := apply_acts env session op
  have hSame : op.apply env session = _ := hFound session.table
  have hEmpty : op.apply env (session.withTable .empty) = _ := hFound .empty
  have hNothing : ¬ (Table.empty.atKey? key).isSome := by
    simp [Table.empty, Table.atKey?, Entries.get?]
  rw [Operation.Stores, hSame, hEmpty, Table.isSome_atKey?_storeAll, Table.isSome_atKey?_storeAll,
    ite_self]
  cases op.empties env session.config with
  | false => simp [hNothing, or_comm]
  | true => simp [hNothing]

theorem mem_addRoot {roots : List String} {root name : String} :
    name ∈ addRoot roots root ↔ name = root ∨ name ∈ roots := by
  unfold addRoot
  split
  · next hMem =>
      refine ⟨.inr, ?_⟩
      rintro (rfl | hName)
      · exact hMem
      · exact hName
  · simp [or_comm]

/-- The remembered roots are the earlier ones and the one that the operation remembers. -/
theorem mem_parsedRoots_apply (session : Session) (op : Operation) (name : String) :
    name ∈ (op.apply env session).parsedRoots ↔
      (∃ known, op.remembers? env session = some known ∧ known.toString = name) ∨
        name ∈ session.parsedRoots := by
  obtain ⟨found, hFound⟩ := apply_acts env session op
  have hSame : op.apply env session = _ := hFound session.table
  rw [hSame]
  cases op.remembers? env session with
  | none => simp [remember]
  | some known => simp [remember, mem_addRoot, eq_comm]

end Run

theorem run_config {env : Environment} (session : Session) (ops : List Operation) :
    (run env session ops).config = session.config := by
  induction ops generalizing session with
  | nil => rfl
  | cons first rest ih => exact (ih (first.apply env session)).trans (apply_config session first)

/-- A key has an entry exactly if one was stored and nothing emptied the table since. -/
theorem isSome_atKey?_run (env : Environment) (session : Session) (ops : List Operation)
    (key : String) :
    ((run env session ops).table.atKey? key).isSome ↔
      ((session.table.atKey? key).isSome ∧
        ∀ op ∈ ops, op.empties env session.config = false) ∨
      KeptSince env session ops (fun before op => op.Stores env before key)
        (fun later => later.empties env session.config = false) := by
  refine run_iff (fun later => (later.table.atKey? key).isSome) (fun before op hConfig => ?_) rfl
  rw [isSome_atKey?_apply, hConfig]

/-- A root is remembered exactly if it was before or some operation remembers it. -/
theorem mem_parsedRoots_run (env : Environment) (session : Session) (ops : List Operation)
    (name : String) :
    name ∈ (run env session ops).parsedRoots ↔
      name ∈ session.parsedRoots ∨
      KeptSince env session ops
        (fun before op => ∃ known, op.remembers? env before = some known ∧ known.toString = name)
        (fun _ => True) := by
  have hStep (before : Session) (op : Operation) :
      name ∈ (op.apply env before).parsedRoots ↔
        (∃ known, op.remembers? env before = some known ∧ known.toString = name) ∨
          (name ∈ before.parsedRoots ∧ True) := by
    rw [mem_parsedRoots_apply, and_true]
  rw [run_iff (name ∈ ·.parsedRoots) (fun before op _ => hStep before op) rfl]
  simp only [implies_true, and_true]

end SignatureIndex.Session
