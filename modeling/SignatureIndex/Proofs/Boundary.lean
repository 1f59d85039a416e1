import SignatureIndex.Proofs.Failure
import SignatureIndex.Proofs.Operation

/-! What leaves an operation on a session. An operation tells what goes wrong in its report, but not
all of it: the failures to settle a path or to look at it, a stack that is used up and some faults
of archives end it without a report. Which failures these are, and when they occur, is stated
exactly; in all other cases there is a report, and it has an error notice if and only if what was
asked for could not be found or read. -/
namespace SignatureIndex

namespace Archive

/-- The failure that ends a way through an archive. -/
def failure? (visits : List Visit) : Option Failure :=
  visits.findSome? fun
    | .failed failure => some failure
    | _ => none

/-- Whatever ends the way through an archive is a failure of one of its entries. -/
theorem failure?_visits {archive : Archive} {selection : Selection} {failure : Failure}
    (h : failure? (archive.visits selection) = some failure) : EntryFailure failure := by
  obtain ⟨visit, hMem, hVisit⟩ := List.exists_of_findSome?_eq_some h
  cases visit with
  | failed other =>
      cases hVisit
      exact mem_visitsOf_failed hMem
  | skipped name => cases hVisit
  | script script => cases hVisit

end Archive

namespace Session

/-- The file tree does not tell what a path leads to: the path is too long, or the access is
refused. -/
def Withheld (env : Environment) (path : Path) (failure : Failure) : Prop :=
  env.find .target path = .error failure ∧ Environment.meansAbsent failure = false

/-- How an archive that is asked for ends an operation: the home directory that its path starts
with, or a fault that is not among those an archive's own failures cover. -/
def ArchiveEscapes (env : Environment) (session : Session) (asked : Option String)
    (failure : Failure) : Prop :=
  session.config.archivePath env asked = .error failure ∨
    ∃ path, session.config.archivePath env asked = .ok (some path) ∧
      isArchiveFailure failure = false ∧
      (Archive.ofFile env path = .error failure ∨
        ∃ archive, Archive.ofFile env path = .ok archive ∧
          Archive.failure? (archive.visits session.selection) = some failure)

/-- How a file ends an operation. -/
def FileEscapes (env : Environment) (path : Path) (failure : Failure) : Prop :=
  env.expandHome path = .error failure ∨
    ∃ file, env.expandHome path = .ok file ∧ Withheld env file failure

/-- How a project ends an operation: its path, the path of a file that it includes, files that
include one another too deep, or the path of its root once it was read. What the file tree refuses
on the way is told. -/
def ProjectEscapes (env : Environment) (path : Path) (failure : Failure) : Prop :=
  env.resolveHome path = .error failure ∨
    ∃ root, env.resolveHome path = .ok root ∧
      (Withheld env root failure ∨
        env.isDirectory root = .ok true ∧
          (failure.isFile = false ∧ (Project.parse env root .empty []).2 = some failure ∨
            failure.isFile = false ∧ (Project.parse env root .empty []).2 = none ∧
              env.resolveHome root = .error failure))

/-- How a document ends an operation: the search for its project, or that project, unless it was
read before. -/
def DocumentEscapes (env : Environment) (session : Session) (language path : Option String)
    (failure : Failure) : Prop :=
  language = some session.config.language ∧ ∃ text, path.filter (· ≠ "") = some text ∧
    (projectRoot env (.ofString text) = .error failure ∨
      ∃ root, projectRoot env (.ofString text) = .ok (some root) ∧
        (∀ real, env.resolveHome root = .ok real → real.toString ∉ session.parsedRoots) ∧
        ProjectEscapes env root failure)

namespace Operation

/-- What an operation gives: a report, or nothing if a document asks for nothing. -/
def result (env : Environment) (session : Session) : Operation → Except Failure (Option Report)
  | parseArchive asked => (session.parseArchive env asked).result.map some
  | listFiles asked count => (session.listFiles env asked count).result.map some
  | parseFile path clear => (session.parseFile env (.ofString path) clear).result.map some
  | parseProject path clear => (session.parseProject env (.ofString path) clear).result.map some
  | openDocument language path => (session.openDocument env language path).result

/-- The failures that end an operation without a report. -/
def Escapes (env : Environment) (session : Session) : Operation → Failure → Prop
  | parseArchive asked | listFiles asked _ => ArchiveEscapes env session asked
  | parseFile path _ => FileEscapes env (.ofString path)
  | parseProject path _ => ProjectEscapes env (.ofString path)
  | openDocument language path => DocumentEscapes env session language path

/-- What an operation is asked for can be found and read as a whole. -/
def Succeeds (env : Environment) (session : Session) : Operation → Prop
  | parseArchive asked | listFiles asked _ =>
    ∃ path archive, archive? env session.config asked = some (path, archive) ∧
      Archive.failure? (archive.visits session.selection) = none
  | parseFile path _ => (script? env (.ofString path)).isSome
  | op@(parseProject _ _) | op@(openDocument _ _) => (op.completes? env session).isSome

/-- A document asks for nothing: it has no project, or its project was read before. -/
def Idle (env : Environment) (session : Session) : Operation → Prop
  | openDocument language path => documentProject? env session language path = none
  | _ => False

/-- The kinds of failures that no report of an operation tells. -/
def untold : Operation → Failure → Bool
  | parseArchive _, failure | listFiles _ _, failure =>
    match failure with
    | .unknownHome | .nullCharacter | .undecodable | .archiveVersion _ | .archiveOffset
    | .archiveData _ => true
    | _ => false
  | parseFile _ _, failure =>
    match failure with
    | .unknownHome | .nullCharacter | .file .nameTooLong _ | .file (.refused _) _ => true
    | _ => false
  | parseProject _ _, failure | openDocument _ _, failure =>
    match failure with
    | .unknownHome | .nullCharacter | .linkLoop _ | .stackOverflow | .file .nameTooLong _
    | .file (.refused _) _ => true
    | _ => false

end Operation

/-- An operation ends without a report exactly for certain failures, and its report is free of
errors exactly if it succeeds. -/
def Ends (escapes : Failure → Prop) (succeeds : Prop) (result : Except Failure Report) : Prop :=
  (∀ failure, result = .error failure ↔ escapes failure) ∧
    ∀ report, result = .ok report → (report.ok = true ↔ succeeds)

/-- A result that is a failure ends well if this is the one escaping failure. -/
theorem ends_error {escapes : Failure → Prop} {succeeds : Prop} {failure : Failure}
    (h : ∀ other, escapes other ↔ other = failure) : Ends escapes succeeds (.error failure) := by
  refine ⟨fun other => ?_, fun _ hNone => by cases hNone⟩
  rw [h other, Except.error.injEq, eq_comm]

/-- A result that is a report ends well if nothing escapes and the report tells of success. -/
theorem ends_ok {escapes : Failure → Prop} {succeeds : Prop} {report : Report}
    (hEscapes : ∀ other, ¬escapes other) (hSucceeds : report.ok = true ↔ succeeds) :
    Ends escapes succeeds (.ok report) := by
  refine ⟨fun other => ?_, ?_⟩
  · simp [hEscapes other]
  · rintro _ ⟨⟩
    exact hSucceeds

theorem Ends.congr {escapes escapes' : Failure → Prop} {succeeds succeeds' : Prop}
    {result : Except Failure Report} (h : Ends escapes succeeds result)
    (hEscapes : ∀ failure, escapes failure ↔ escapes' failure) (hSucceeds : succeeds ↔ succeeds') :
    Ends escapes' succeeds' result :=
  ⟨fun failure => (h.1 failure).trans (hEscapes failure),
    fun report hReport => (h.2 report hReport).trans hSucceeds⟩

theorem notify_ok (report : Report) (level : NoticeLevel) (message : String) :
    (report.notify level message).ok = (report.ok && level ≠ .error) := by
  simp [Report.notify, Report.ok, Bool.not_or]

section Archives

variable (env : Environment) (session : Session) (path : Path) (report : Report)
  (log : List LogLine)

/-- How a way through an archive ends that some failure may end early. -/
def Told (failure : Option Failure) (result : Except Failure Report) : Prop :=
  Ends (fun other => failure = some other ∧ isArchiveFailure other = false) (failure = none) result

/-- The report on an archive that failed tells of the failure, or the failure escapes. -/
theorem told_tellArchiveFailure (what : String) (failure : Failure) :
    Told (some failure) (session.tellArchiveFailure report log what path failure).result := by
  unfold tellArchiveFailure
  cases hCovered : isArchiveFailure failure with
  | true =>
      refine ends_ok ?_ ?_
      · rintro other ⟨hSame, hOther⟩
        cases hSame
        rw [hCovered] at hOther
        cases hOther
      · simp [notify_ok]
  | false =>
      refine ends_error fun other => ?_
      constructor
      · rintro ⟨hSame, -⟩
        cases hSame
        rfl
      · rintro rfl
        exact ⟨rfl, hCovered⟩

/-- Reading what an archive holds tells of the failure that ends the way, and of no other. -/
theorem told_readVisits (visits : List Archive.Visit) (hReport : report.ok = true) :
    Told (Archive.failure? visits) (readVisits path session report log visits).result := by
  induction visits generalizing session report log with
  | nil =>
      exact ends_ok (by simp [Archive.failure?]) (by simp [notify_ok, hReport, Archive.failure?])
  | cons visit rest ih =>
      cases visit with
      | skipped name => exact ih session report _ hReport
      | script script => exact ih _ _ _ hReport
      | failed failure =>
          exact told_tellArchiveFailure session path report log "Error parsing" failure

/-- Listing an archive tells of failures as reading it does. -/
theorem told_listVisits (count : Option Int) (visits : List Archive.Visit)
    (hReport : report.ok = true) :
    Told (Archive.failure? visits) (listVisits path count session report log visits).result := by
  induction visits generalizing report log with
  | nil => exact ends_ok (by simp [Archive.failure?]) (by simp [hReport, Archive.failure?])
  | cons visit rest ih =>
      cases visit with
      | skipped name => exact ih report _ hReport
      | script script => exact ih _ log hReport
      | failed failure =>
          exact told_tellArchiveFailure session path report log "Error listing files in" failure

end Archives

section Operations

variable (env : Environment) (session : Session)

/-- An operation on an archive looks for its path, opens it and goes through it; how it ends follows
from how these end. -/
theorem ends_of_archive {asked : Option String} {result : Except Failure Report}
    (hHome : ∀ failure, session.config.archivePath env asked = .error failure →
      result = .error failure)
    (hNone : session.config.archivePath env asked = .ok none →
      ∃ report, result = .ok report ∧ report.ok = false)
    (hOpening : ∀ path failure, session.config.archivePath env asked = .ok (some path) →
      Archive.ofFile env path = .error failure → Told (some failure) result)
    (hVisits : ∀ path archive, session.config.archivePath env asked = .ok (some path) →
      Archive.ofFile env path = .ok archive →
        Told (Archive.failure? (archive.visits session.selection)) result) :
    Ends (ArchiveEscapes env session asked)
      (∃ path archive, archive? env session.config asked = some (path, archive) ∧
        Archive.failure? (archive.visits session.selection) = none) result := by
  unfold ArchiveEscapes archive?
  rcases hPath : session.config.archivePath env asked with failure | (_ | path)
  · rw [hHome failure hPath]
    refine ends_error fun other => ?_
    simp only [Except.error.injEq, reduceCtorEq, false_and, exists_false, or_false]
    exact eq_comm
  · obtain ⟨report, rfl, hReport⟩ := hNone hPath
    refine ends_ok ?_ ?_
    · simp
    · simp [hReport]
  · cases hArchive : Archive.ofFile env path with
    | error failure =>
        obtain ⟨hError, hOk⟩ := hOpening path failure hPath hArchive
        refine ⟨fun other => ?_, fun report hReport => ?_⟩
        · rw [hError]
          simp [hArchive, and_comm]
        · rw [hOk report hReport]
          simp [hArchive]
    | ok archive =>
        obtain ⟨hError, hOk⟩ := hVisits path archive hPath hArchive
        refine ⟨fun other => ?_, fun report hReport => ?_⟩
        · rw [hError]
          simp [hArchive, and_comm]
        · rw [hOk report hReport]
          simp [hArchive]

/-- How reading an archive ends is what the file tree says about its path and entries. -/
theorem ends_parseArchive (asked : Option String) :
    Ends (ArchiveEscapes env session asked) ((Operation.parseArchive asked).Succeeds env session)
      (session.parseArchive env asked).result := by
  refine ends_of_archive env session ?_ ?_ ?_ ?_
  · intro failure hPath
    simp only [parseArchive, hPath, unchanged]
  · intro hPath
    simp only [parseArchive, hPath, withoutArchive, unchanged]
    exact ⟨_, rfl, rfl⟩
  · intro path failure hPath hArchive
    simp only [parseArchive, hPath, hArchive]
    exact told_tellArchiveFailure session path .empty _ "Error parsing" failure
  · intro path archive hPath hArchive
    simp only [parseArchive, hPath, hArchive]
    exact told_readVisits _ path .empty _ _ rfl

/-- How listing an archive ends is what the file tree says, as for reading it. -/
theorem ends_listFiles (asked : Option String) (count : Option Int) :
    Ends (ArchiveEscapes env session asked)
      ((Operation.listFiles asked count).Succeeds env session)
      (session.listFiles env asked count).result := by
  refine ends_of_archive env session ?_ ?_ ?_ ?_
  · intro failure hPath
    simp only [listFiles, hPath, unchanged]
  · intro hPath
    simp only [listFiles, hPath, withoutArchive, unchanged]
    exact ⟨_, rfl, rfl⟩
  · intro path failure hPath hArchive
    simp only [listFiles, hPath, hArchive]
    exact told_tellArchiveFailure session path .empty _ "Error listing files in" failure
  · intro path archive hPath hArchive
    simp only [listFiles, hPath, hArchive]
    exact told_listVisits session path .empty _ count _ rfl

theorem withheld_iff_isFile {file : Path} {failure : Failure} :
    Withheld env file failure ↔ env.isFile file = .error failure :=
  env.holds_eq_error_iff.symm

theorem withheld_iff_isDirectory {directory : Path} {failure : Failure} :
    Withheld env directory failure ↔ env.isDirectory directory = .error failure :=
  env.holds_eq_error_iff.symm

/-- How reading a file ends: with what escapes, or with success if there is a script. -/
theorem ends_parseFile (path : Path) (clear : Bool) :
    Ends (FileEscapes env path) (script? env path).isSome
      (session.parseFile env path clear).result := by
  unfold parseFile FileEscapes script?
  simp only [withheld_iff_isFile]
  cases hHome : env.expandHome path with
  | error failure =>
      refine ends_error fun other => ?_
      simp only [Except.error.injEq, reduceCtorEq, false_and, exists_false, or_false]
      exact eq_comm
  | ok file =>
      simp only [reduceCtorEq, Except.ok.injEq, exists_eq_left', false_or]
      rcases hFile : env.isFile file with failure | (_ | _)
      · refine ends_error fun other => ?_
        simp only [Except.error.injEq]
        exact eq_comm
      · exact ends_ok (by simp) (by simp [notify_ok])
      · cases hText : env.readScript file with
        | ok text => exact ends_ok (by simp) (by simp [Report.ok])
        | error failure =>
            -- a file that cannot be read is one that the tree refuses to read
            obtain ⟨refusal, rfl⟩ := (env.readBytes_of_isFile hFile).map _ _ hText
            exact ends_ok (by simp) (by simp [notify_ok])

theorem projectReport_ok (root : Path) (pass : Project.Pass) :
    (projectReport root pass).ok = true := by
  simp [projectReport, Report.ok, missingNotices]

/-- How the pass over a project ends does not depend on the table. -/
theorem parse_failure (root : Path) (table : Table) :
    (Project.parse env root table []).2 = (Project.parse env root .empty []).2 := by
  obtain ⟨found, hFound⟩ := Project.parse_storeAll env root []
  rw [hFound table]

/-- A failure of the file tree is told, any other one is not. -/
theorem ends_tellProjectFailure (root : Path) (pass : Project.Pass) (failure : Failure) :
    Ends (fun other => other.isFile = false ∧ failure = other) False
      (session.tellProjectFailure root pass failure).result := by
  unfold tellProjectFailure
  cases hFile : failure.isFile with
  | true =>
      refine ends_ok ?_ (by simp [notify_ok])
      rintro other ⟨hOther, rfl⟩
      rw [hFile] at hOther
      cases hOther
  | false =>
      refine ends_error fun other => ?_
      constructor
      · rintro ⟨-, rfl⟩
        rfl
      · rintro rfl
        exact ⟨hFile, rfl⟩

/-- How reading a project ends: with what escapes, or with success if it can be read. -/
theorem ends_parseProject (path : Path) (clear : Bool) :
    Ends (ProjectEscapes env path) (readable? env path).isSome
      (session.parseProject env path clear).result := by
  unfold parseProject ProjectEscapes readable? directory?
  simp only [withheld_iff_isDirectory]
  cases hReal : env.resolveHome path with
  | error failure =>
      refine ends_error fun other => ?_
      simp only [Except.error.injEq, reduceCtorEq, false_and, exists_false, or_false]
      exact eq_comm
  | ok root =>
      simp only [reduceCtorEq, Except.ok.injEq, exists_eq_left', false_or]
      rcases hDirectory : env.isDirectory root with failure | (_ | _)
      · refine ends_error fun other => ?_
        simp only [Except.error.injEq, reduceCtorEq, false_and, or_false]
        exact eq_comm
      · exact ends_ok (by simp) (by simp [notify_ok])
      · have hPass := parse_failure env root (if clear then .empty else session.table)
        rcases hParse : Project.parse env root (if clear then .empty else session.table) [] with
          ⟨pass, _ | failure⟩
        · rw [hParse] at hPass
          simp only [← hPass, reduceCtorEq, and_false, true_and, false_or]
          cases hKnown : env.resolveHome root with
          | error failure =>
              refine (ends_tellProjectFailure session root pass failure).congr ?_ ?_
              · intro other
                simp
              · simp [knownAs?, hKnown, Except.toOption]
          | ok known =>
              refine ends_ok (by simp) ?_
              simp [projectReport_ok, ← hPass, knownAs?, hKnown, Except.toOption]
        · rw [hParse] at hPass
          simp only [← hPass]
          refine (ends_tellProjectFailure session root pass failure).congr ?_ ?_
          · intro other
            simp
          · simp [← hPass]

/-- The same for an operation that may also give nothing, namely if there is nothing to do. -/
def EndsIdle (escapes : Failure → Prop) (idle succeeds : Prop)
    (result : Except Failure (Option Report)) : Prop :=
  (∀ failure, result = .error failure ↔ escapes failure) ∧
    ∀ told, result = .ok told →
      (told = none ↔ idle) ∧ ∀ report ∈ told, (report.ok = true ↔ succeeds)

theorem Ends.map_some {escapes : Failure → Prop} {succeeds : Prop} {result : Except Failure Report}
    (h : Ends escapes succeeds result) : EndsIdle escapes False succeeds (result.map some) := by
  obtain ⟨hError, hOk⟩ := h
  cases result with
  | error failure =>
      refine ⟨fun other => ?_, ?_⟩
      · rw [← hError other]
        simp [Except.map]
      · rintro _ ⟨⟩
  | ok report =>
      refine ⟨fun other => ?_, ?_⟩
      · rw [← hError other]
        simp [Except.map]
      · rintro _ ⟨⟩
        refine ⟨by simp, ?_⟩
        rintro _ ⟨⟩
        exact hOk report rfl

theorem endsIdle_error {escapes : Failure → Prop} {idle succeeds : Prop} {failure : Failure}
    (h : ∀ other, escapes other ↔ other = failure) :
    EndsIdle escapes idle succeeds (.error failure) := by
  refine ⟨fun other => ?_, fun _ hNone => by cases hNone⟩
  rw [h other, Except.error.injEq, eq_comm]

theorem endsIdle_none {escapes : Failure → Prop} {idle succeeds : Prop}
    (hEscapes : ∀ other, ¬escapes other) (hIdle : idle) :
    EndsIdle escapes idle succeeds (.ok none) := by
  refine ⟨fun other => ?_, ?_⟩
  · simp [hEscapes other]
  · rintro _ ⟨⟩
    simp [hIdle]

/-- How opening a document ends: it may also have nothing to do. -/
theorem ends_openDocument (language path : Option String) :
    EndsIdle (DocumentEscapes env session language path)
      (documentProject? env session language path = none)
      ((Operation.openDocument language path).completes? env session).isSome
      (session.openDocument env language path).result := by
  simp only [Operation.completes?, Operation.project?]
  unfold openDocument documentProject? DocumentEscapes
  cases path.filter (· ≠ "") with
  | none => exact endsIdle_none (by simp) rfl
  | some text =>
      by_cases hLanguage : language = some session.config.language
      · simp only [hLanguage, ne_eq, not_true_eq_false, if_false, true_and, Option.some.injEq,
          exists_eq_left']
        rcases projectRoot env (.ofString text) with failure | (_ | root)
        · refine endsIdle_error fun other => ?_
          simp only [Except.error.injEq, reduceCtorEq, false_and, exists_false, or_false]
          exact eq_comm
        · exact endsIdle_none (by simp) rfl
        · have hProject := ends_parseProject env session root false
          simp only [reduceCtorEq, Except.ok.injEq, Option.some.injEq, exists_eq_left', false_or]
          cases hReal : env.resolveHome root with
          | error failure =>
              refine endsIdle_error fun other => ?_
              simp only [ProjectEscapes, hReal, Except.error.injEq, reduceCtorEq, false_implies,
                implies_true, true_and, false_and, exists_false, or_false]
              exact eq_comm
          | ok real =>
              simp only [Except.ok.injEq, forall_eq']
              by_cases hKnown : real.toString ∈ session.parsedRoots
              · simp only [hKnown, if_true]
                exact endsIdle_none (by simp) trivial
              · simpa [hKnown] using hProject.map_some
      · simp only [hLanguage, ne_eq, not_false_eq_true, if_true, false_and]
        exact endsIdle_none (by simp) trivial

/-- How any operation ends, the operations taken together. -/
theorem ends_operation (op : Operation) :
    EndsIdle (op.Escapes env session) (op.Idle env session) (op.Succeeds env session)
      (op.result env session) := by
  cases op with
  | parseArchive asked => exact (ends_parseArchive env session asked).map_some
  | listFiles asked count => exact (ends_listFiles env session asked count).map_some
  | parseFile path clear => exact (ends_parseFile env session (.ofString path) clear).map_some
  | parseProject path clear =>
      exact (ends_parseProject env session (.ofString path) clear).map_some
  | openDocument language path => exact ends_openDocument env session language path

theorem archivePath_failsOnly (config : Config) (asked : Option String) :
    FailsOnly (fun failure => failure = .nullCharacter ∨ failure = .unknownHome)
      (config.archivePath env asked) := by
  unfold Config.archivePath
  split
  · exact .ok _
  · exact (env.expandHome_failsOnly _).map some

/-- Looking for a root above a path fails only as a search for files does. -/
theorem rootAmong_failsOnly (directories : List Path) :
    FailsOnly Project.SearchFailure (rootAmong env directories) := by
  induction directories with
  | nil => exact .ok _
  | cons directory rest ih =>
      rw [rootAmong]
      split
      · next failure hFailure => exact .error (Project.rootLumps_failsOnly env _ _ hFailure)
      · exact ih
      · exact .ok _

/-- What escapes from reading or listing an archive is of a kind that no report tells. -/
theorem untold_of_archive {op : Operation} {asked : Option String} {failure : Failure}
    (hOp : op = .parseArchive asked ∨ ∃ count, op = .listFiles asked count)
    (h : ArchiveEscapes env session asked failure) : op.untold failure = true := by
  have hKind : (Operation.parseArchive asked).untold failure = true := by
    rcases h with hHome | ⟨path, -, hCovered, hOpening | ⟨archive, -, hEntry⟩⟩
    · rcases archivePath_failsOnly env session.config asked _ hHome with rfl | rfl
      · rfl
      · rfl
    · have hFault := Archive.ofFile_failsOnly env path _ hOpening
      cases failure with
      | archiveOpening path fault => cases hCovered
      | nullCharacter | undecodable | archiveVersion tenths => rfl
      | _ => cases hFault
    · have hFault := Archive.failure?_visits hEntry
      cases failure with
      | archiveEntry name fault => cases hCovered
      | archiveOffset | undecodable | archiveData fault => rfl
      | _ => cases hFault
  rcases hOp with rfl | ⟨count, rfl⟩
  · exact hKind
  · exact hKind

theorem untold_of_settle (text : String) (clear : Bool) {failure : Failure}
    (h : Environment.SettleFailure failure) :
    (Operation.parseProject text clear).untold failure = true := by
  cases failure with
  | nullCharacter | unknownHome | linkLoop loop | stackOverflow => rfl
  | file error path =>
      cases error with
      | refused refusal => rfl
      | _ => cases h
  | _ => cases h

theorem untold_of_withheld (text : String) (clear : Bool) {error : FileError} {path : String}
    (h : Environment.Withholds error) :
    (Operation.parseFile text clear).untold (.file error path) = true ∧
      (Operation.parseProject text clear).untold (.file error path) = true := by
  cases error with
  | nameTooLong | refused refusal => exact ⟨rfl, rfl⟩
  | _ => cases h

/-- What escapes from reading a project is of a kind that no report tells. -/
theorem untold_of_project (text : String) (clear : Bool) {path : Path} {failure : Failure}
    (h : ProjectEscapes env path failure) :
    (Operation.parseProject text clear).untold failure = true := by
  rcases h with hReal | ⟨root, -, hRoot | ⟨-, ⟨hOther, hPass⟩ | ⟨-, -, hKnown⟩⟩⟩
  · exact untold_of_settle text clear (env.resolveHome_failsOnly _ _ hReal)
  · obtain ⟨error, hError, rfl⟩ :=
      env.holds_failsOnly _ root _ ((withheld_iff_isDirectory env).mp hRoot)
    exact (untold_of_withheld text clear hError).2
  · have hPath := Project.parse_pathFailure env hPass
    cases failure with
    | nullCharacter | unknownHome | linkLoop loop | stackOverflow => rfl
    | file error path => cases hOther
    | _ => cases hPath
  · exact untold_of_settle text clear (env.resolveHome_failsOnly _ _ hKnown)

/-- Whatever escapes from an operation is of a kind that no report of it tells. -/
theorem untold_of_escapes {op : Operation} {failure : Failure}
    (h : op.Escapes env session failure) : op.untold failure = true := by
  cases op with
  | parseArchive asked => exact untold_of_archive env session (.inl rfl) h
  | listFiles asked count => exact untold_of_archive env session (.inr ⟨count, rfl⟩) h
  | parseFile path clear =>
      rcases h with hHome | ⟨file, -, hFile⟩
      · rcases env.expandHome_failsOnly _ _ hHome with rfl | rfl
        · rfl
        · rfl
      · obtain ⟨error, hError, rfl⟩ :=
          env.holds_failsOnly _ file _ ((withheld_iff_isFile env).mp hFile)
        exact (untold_of_withheld path clear hError).1
  | parseProject path clear => exact untold_of_project env path clear h
  | openDocument language path =>
      obtain ⟨-, text, -, hSearch | ⟨root, -, -, hProject⟩⟩ := h
      · unfold projectRoot at hSearch
        split at hSearch
        · next hReal =>
            cases hSearch
            exact untold_of_project env text true (.inl hReal)
        · rcases rootAmong_failsOnly env _ _ hSearch with rfl | ⟨error, path, hError, rfl⟩
          · rfl
          · exact (untold_of_withheld text true hError).2
      · exact untold_of_project env text true hProject

end Operations

end Session

end SignatureIndex
