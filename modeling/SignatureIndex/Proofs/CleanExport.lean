import SignatureIndex.CommandLine
import SignatureIndex.Proofs.ExportOrder
import SignatureIndex.Proofs.OncePerRoot

/-! Commands that read signatures and write an export. A command that ends with an exit code has
written an export exactly if the configuration was accepted and the report has no error; otherwise
it has changed no file. For a directory of projects, the report adds up the reports on the projects,
and one error in any of them is enough. -/
namespace SignatureIndex

namespace Export

/-- An export that was written: its file holds the text of the table, which is complete, and apart
from that only directories are new. -/
theorem write_eq_ok {env final : Environment} {path : Path} {table : Table} {count : Nat}
    (h : write env path table = (.ok count, final)) :
    ∃ file text place, target env path = .ok file ∧ textOf table = (text, none) ∧
      final.find .target file = .ok (.node place (.file (Text.encodeUtf8 text))) ∧
      ∀ other, other ≠ place → final.tree.at? other = env.tree.at? other ∨
        env.tree.at? other = none ∧ final.tree.at? other = some .directory := by
  unfold write at h
  split at h
  · cases h
  · next file hFile =>
      split at h
      · cases h
      · next prepared hMade =>
          have hGrows := env.makeDirectories_grows file.parent
          rw [hMade] at hGrows
          rcases hText : textOf table with ⟨text, reason⟩
          unfold textOf at hText
          simp only [writeRecords, hText] at h
          cases hWritten : prepared.writeFile file (Text.encodeUtf8 text) with
          | error failure =>
              rw [hWritten] at h
              cases h
          | ok written =>
              rw [hWritten] at h
              cases reason with
              | some reason => cases h
              | none =>
                  cases h
                  obtain ⟨place, hFind, -, hOthers⟩ := Environment.find_of_writeFile hWritten
                  refine ⟨file, text, place, hFile, rfl, hFind, fun other hOther => ?_⟩
                  rw [hOthers other hOther]
                  exact hGrows other

end Export

namespace CommandLine

/-- Where a command that reads signatures writes its export. -/
def Command.out? : Command → Option OptionValue
  | .parseArchive _ out | .parseFile _ out | .parseProject _ out => out
  | .listFiles _ | .signatureHelp _ _ _ | .complete _ _ _ => none

/-- What a command that reads signatures reads. -/
def Command.outcome (env : Environment) (session : Session) : Command → Outcome Report
  | .parseArchive archive _ => session.parseArchive env archive
  | .parseFile file _ => session.parseFile env (.ofString file) true
  | .parseProject root _ =>
    match env.resolveHome (.ofString root) with
    | .error failure => session.unchanged (.error failure) []
    | .ok path => parseRoot env session path
  | .listFiles _ | .signatureHelp _ _ _ | .complete _ _ _ => session.unchanged (.ok .empty) []

/-- The file that an option names holds the complete export of a table, and apart from that only
directories are new. -/
def Exported (env final : Environment) (out : OptionValue) (table : Table) : Prop :=
  ∃ name path file text place, out = .text name ∧ env.resolveHome (.ofString name) = .ok path ∧
    Export.target env path = .ok file ∧ Export.textOf table = (text, none) ∧
    final.find .target file = .ok (.node place (.file (Text.encodeUtf8 text))) ∧
    ∀ other, other ≠ place → final.tree.at? other = env.tree.at? other ∨
      env.tree.at? other = none ∧ final.tree.at? other = some .directory

/-- The session after projects were read one after the other, with nothing emptied between them. -/
def readAll (env : Environment) (session : Session) (roots : List Path) : Session :=
  roots.foldl (fun before root => (before.parseProject env root false).session) session

/-- A count of reports added up. -/
def total (count : Report → Nat) : List Report → Nat
  | [] => 0
  | report :: rest => count report + total count rest

section Finish

variable {env : Environment} {session : Session} {command : Command} {out : OptionValue}
  {code : Nat}

/-- A command that writes an export ends by finishing its outcome. -/
theorem runCommand_eq_finish (h : command.out? = some out) :
    runCommand env session command = finish env (command.outcome env session) (some out) := by
  cases command with
  | parseArchive archive other =>
      cases h
      rfl
  | parseFile file other =>
      cases h
      rfl
  | parseProject root other =>
      cases h
      cases hPath : env.resolveHome (.ofString root) with
      | error failure =>
          simp only [runCommand, Command.outcome, hPath]
          rfl
      | ok path => simp only [runCommand, Command.outcome, hPath]
  | listFiles archive => cases h
  | signatureHelp sources archive text => cases h
  | complete sources archive start => cases h

/-- An export ends well only with the table written where it was asked for. -/
theorem finishExport_eq_ok {told : List Emission}
    (h : (finishExport env session told out).exit = .ok code) :
    code = exitOk ∧ Exported env (finishExport env session told out).env out session.table := by
  cases out with
  | withdrawn => cases h
  | text name =>
      unfold finishExport writeExport at h ⊢
      cases hPath : env.resolveHome (.ofString name) with
      | error failure =>
          simp only [hPath] at h
          cases h
      | ok path =>
          rcases hWrite : Export.write env path session.table with ⟨_ | count, final⟩
          · simp only [hPath, hWrite] at h
            cases h
          · simp only [hPath, hWrite, Except.ok.injEq] at h ⊢
            obtain ⟨file, text, place, hFile, hText, hFind, hOthers⟩ := Export.write_eq_ok hWrite
            exact ⟨h.symm, name, path, file, text, place, rfl, hPath, hFile, hText, hFind, hOthers⟩

/-- How a command ends that reads signatures and gives an exit code. -/
theorem finish_eq_ok {outcome : Outcome Report}
    (h : (finish env outcome (some out)).exit = .ok code) :
    ∃ report, outcome.result = .ok report ∧
      (report.ok = false → code = exitError ∧ (finish env outcome (some out)).env = env) ∧
      (report.ok = true → code = exitOk ∧
        Exported env (finish env outcome (some out)).env out outcome.session.table) := by
  unfold finish at h ⊢
  cases hResult : outcome.result with
  | error failure =>
      rw [hResult] at h
      cases h
  | ok report =>
      simp only [hResult] at h
      refine ⟨report, rfl, ?_⟩
      cases hOk : report.ok with
      | false =>
          simp only [hOk, Bool.not_false, if_true, Except.ok.injEq] at h
          simp [hOk, h]
      | true =>
          simp only [hOk, Bool.not_true, Bool.false_eq_true, if_false] at h
          simp only [hOk, Bool.not_true, Bool.false_eq_true, if_false]
          exact ⟨fun hFalse => absurd hFalse (by decide), fun _ => finishExport_eq_ok h⟩

end Finish

section Projects

variable {env : Environment}

/-- The report on a project that is read by itself. -/
def reportOn (env : Environment) (config : Config) (root : Path) : Except Failure Report :=
  ((Session.start config .empty).parseProject env root true).result

theorem add_ok (report other : Report) : (report.add other).ok = (report.ok && other.ok) := by
  simp [Report.add, Report.ok, Bool.not_or]

/-- Projects that are read one after the other: each gives the report that it gives by itself, and
these are added up. -/
theorem parseAll_eq_ok (config : Config) {roots : List Path} {session : Session} {report : Report}
    {log : List LogLine} {combined : Report}
    (h : (parseAll env session report log roots).result = .ok combined) :
    (parseAll env session report log roots).session = readAll env session roots ∧
    ∃ reports, List.Forall₂ (fun root found => reportOn env config root = .ok found) roots reports ∧
      combined.functions = report.functions + total Report.functions reports ∧
      combined.files = report.files + total Report.files reports ∧
      combined.ok = (report.ok && reports.all Report.ok) := by
  induction roots generalizing session report log with
  | nil =>
      cases h
      exact ⟨rfl, [], .nil, rfl, rfl, by simp⟩
  | cons root rest ih =>
      rw [parseAll] at h ⊢
      cases hRoot : (session.parseProject env root false).result with
      | error failure =>
          simp only [hRoot] at h
          cases h
      | ok found =>
          simp only [hRoot] at h ⊢
          obtain ⟨hSession, reports, hReports, hFunctions, hFiles, hOk⟩ := ih h
          refine ⟨hSession, found :: reports, .cons ?_ hReports, ?_, ?_, ?_⟩
          · rw [reportOn, Session.parseProject_result_eq, hRoot]
          · rw [hFunctions, Report.add, total, Nat.add_assoc]
          · rw [hFiles, Report.add, total, Nat.add_assoc]
          · rw [hOk, add_ok, List.all_cons, Bool.and_assoc]

/-- What a directory of projects gives: the projects that are found in it, in order, are read one
after the other into the empty table, and their reports are added up. -/
theorem parseWorkspace_eq_ok {session : Session} {path : Path} {report : Report}
    (h : (parseWorkspace env session path).result = .ok report) :
    ∃ roots reports,
      Workspace.projectRoots env path session.config.nestedIgnoreFiles = .ok roots ∧
      List.Forall₂ (fun root found => reportOn env session.config root = .ok found) roots reports ∧
      (parseWorkspace env session path).session = readAll env (session.withTable .empty) roots ∧
      report.functions = total Report.functions reports ∧
      report.files = total Report.files reports ∧ report.ok = reports.all Report.ok := by
  unfold parseWorkspace at h ⊢
  cases hRoots : Workspace.projectRoots env path session.config.nestedIgnoreFiles with
  | error failure =>
      rw [hRoots] at h
      cases h
  | ok roots =>
      simp only [hRoots] at h ⊢
      cases hAll : (parseAll env (session.withTable .empty) .empty [] roots).result with
      | error failure =>
          rw [Session.withTable] at hAll
          rw [hAll] at h
          cases h
      | ok combined =>
          obtain ⟨hSession, reports, hReports, hFunctions, hFiles, hOk⟩ :=
            parseAll_eq_ok session.config hAll
          refine ⟨roots, reports, rfl, hReports, hSession, ?_⟩
          rw [Session.withTable] at hAll
          rw [hAll] at h
          cases h
          have hNone : Report.empty.ok = true := rfl
          rw [hNone, Bool.true_and] at hOk
          have hCounts : combined.functions = total Report.functions reports ∧
              combined.files = total Report.files reports := by
            simpa [Report.empty] using And.intro hFunctions hFiles
          beta_reduce
          split
          · exact ⟨hCounts.1, hCounts.2, by simp [Session.notify_ok, hOk]⟩
          · exact ⟨hCounts.1, hCounts.2, hOk⟩

/-- A directory without a root lump of its own is read as a directory of projects. -/
theorem parseRoot_eq_parseWorkspace {session : Session} {path : Path} {report : Report}
    (hDirectory : env.isDirectory path = .ok true) (hLumps : ¬ Project.HoldsLump env path)
    (h : (parseRoot env session path).result = .ok report) :
    parseRoot env session path = parseWorkspace env session path := by
  unfold parseRoot at h ⊢
  simp only [hDirectory] at h ⊢
  cases hFound : Project.rootLumps env path with
  | error failure =>
      rw [hFound] at h
      cases h
  | ok lumps =>
      obtain rfl : lumps = [] := by
        by_contra hSome
        exact hLumps ((Project.rootLumps_ne_nil_iff hFound).mp hSome)
      rfl

end Projects

/-- A command that reads signatures and writes an export, if it ends with an exit code. With a
configuration that is refused, or with an error in the report, the code is two and no file has
changed. Otherwise the code is zero and the file that the command names holds the export of what was
read. For a directory without a root lump of its own, that is what the projects in it give, read in
order into one table; their counts are added up, and an error in any of them gives the code two. -/
theorem exports_only_clean_parse (env : Environment) (arguments : Arguments) (out : OptionValue)
    (code : Nat) (hOut : arguments.command.out? = some out)
    (hExit : (run env arguments).exit = .ok code) :
    (∃ path fault, loadConfig env arguments.configRoot = .error (.config path fault) ∧
      code = 2 ∧ (run env arguments).env = env) ∨
    ∃ config report, loadConfig env arguments.configRoot = .ok config ∧
      (arguments.command.outcome env (.start config .empty)).result = .ok report ∧
      (report.ok = false → code = 2 ∧ (run env arguments).env = env) ∧
      (report.ok = true → code = 0 ∧ Exported env (run env arguments).env out
        (arguments.command.outcome env (.start config .empty)).session.table) ∧
      ∀ root path, arguments.command = .parseProject root (some out) →
        env.resolveHome (.ofString root) = .ok path → env.isDirectory path = .ok true →
        ¬ Project.HoldsLump env path →
        ∃ roots reports, Workspace.projectRoots env path config.nestedIgnoreFiles = .ok roots ∧
          List.Forall₂ (fun each found => reportOn env config each = .ok found) roots reports ∧
          (arguments.command.outcome env (.start config .empty)).session.table =
            (readAll env (.start config .empty) roots).table ∧
          report.functions = total Report.functions reports ∧
          report.files = total Report.files reports ∧
          (code = 2 ↔ ∃ found ∈ reports, found.ok = false) := by
  unfold run at hExit ⊢
  split at hExit
  · next path fault hConfig =>
      cases hExit
      rw [hConfig]
      exact .inl ⟨path, fault, rfl, rfl, rfl⟩
  · cases hExit
  · next config hConfig =>
      rw [hConfig]
      rw [runCommand_eq_finish hOut] at hExit ⊢
      obtain ⟨report, hReport, hError, hOk⟩ := finish_eq_ok hExit
      refine .inr ⟨config, report, rfl, hReport, hError, hOk, ?_⟩
      intro root path hCommand hPath hDirectory hLumps
      have hOutcome : arguments.command.outcome env (.start config .empty) =
          parseRoot env (.start config .empty) path := by
        simp only [hCommand, Command.outcome, hPath]
      rw [hOutcome] at hReport ⊢
      have hWorkspace := parseRoot_eq_parseWorkspace hDirectory hLumps hReport
      rw [hWorkspace] at hReport ⊢
      obtain ⟨roots, reports, hRoots, hReports, hSession, hFunctions, hFiles, hAll⟩ :=
        parseWorkspace_eq_ok hReport
      refine ⟨roots, reports, hRoots, hReports, congrArg Session.table hSession, hFunctions, hFiles,
        ?_⟩
      have hBad : report.ok = false ↔ ∃ found ∈ reports, found.ok = false := by
        rw [hAll, List.all_eq_false]
        simp only [Bool.not_eq_true]
      rw [← hBad]
      cases hVerdict : report.ok with
      | false => simp [(hError hVerdict).1, exitError]
      | true => simp [(hOk hVerdict).1, exitOk]

section SmallProject

open Session

/-- What a run above the small project learns from its files. -/
theorem answers_above_small :
    smallProject.names (.ofString "/") = .ok ["mod", "other.zs"] ∧
      smallProject.isDirectory (.ofString "/") = .ok true ∧
      smallProject.isDirectory (.ofString "/mod") = .ok true ∧
      smallProject.resolveHome (.ofString "/") = .ok (.ofString "/") ∧
      smallProject.resolveHome (.ofString "/out.jsonl") = .ok (.ofString "/out.jsonl") ∧
      Export.opened smallProject (.ofString "/out.jsonl") = .ok (.ofString "/out.jsonl") ∧
      loadConfig smallProject (.text ".") = .ok .default := by
  decide +kernel

/-- The small project is read without a fault, and its signatures can be written. -/
theorem smallPass_clean :
    (Report.empty.add (projectReport (.ofString "/mod") smallPass)).files ≠ 0 ∧
      (Report.empty.add (projectReport (.ofString "/mod") smallPass)).ok = true ∧
      ∀ signature ∈ Export.sorted smallPass.table, signature.HasWords := by
  decide +kernel

theorem rootLumps_above_small : Project.rootLumps smallProject (.ofString "/") = .ok [] := by
  obtain ⟨hNames, -⟩ := answers_above_small
  simp only [Project.rootLumps, hNames]
  rw [Project.sortNames_of_sorted (by decide +kernel)]
  decide +kernel

/-- What reading the directory above the small project gives. -/
def smallOutcome : Outcome Report :=
  ⟨.ok (Report.empty.add (projectReport (.ofString "/mod") smallPass)),
    ⟨.default, smallPass.table, ["/mod"]⟩, smallPass.log⟩

theorem parseRoot_above_small :
    parseRoot smallProject (.start .default .empty) (.ofString "/") = smallOutcome := by
  obtain ⟨-, hAbove, hDirectory, -⟩ := answers_above_small
  have hRoots : Workspace.projectRoots smallProject (.ofString "/")
      (Session.start .default .empty).config.nestedIgnoreFiles = .ok [.ofString "/mod"] := by
    decide +kernel
  have hName : (Path.ofString "/mod").toString = "/mod" := by decide +kernel
  have hProject : (Session.start .default .empty).parseProject smallProject (.ofString "/mod")
      false = ⟨.ok (projectReport (.ofString "/mod") smallPass),
        ⟨.default, smallPass.table, ["/mod"]⟩, smallPass.log⟩ := by
    have hParse : Project.parse smallProject (.ofString "/mod")
        (if false = true then .empty else (Session.start .default .empty).table) [] =
          (smallPass, none) := parse_smallProject_eq
    simp only [parseProject, resolveHome_smallProject, hDirectory, hParse, hName]
    rfl
  have hAll : parseAll smallProject (Session.start .default .empty) .empty [] [.ofString "/mod"] =
      smallOutcome := by
    simp only [parseAll, hProject]
    rfl
  have hFiles : ¬ ((Report.empty.add (projectReport (.ofString "/mod") smallPass)).files = 0 ∧
      (Report.empty.add (projectReport (.ofString "/mod") smallPass)).ok = true) :=
    fun hNone => smallPass_clean.1 hNone.1
  simp only [parseRoot, hAbove, rootLumps_above_small, parseWorkspace, hRoots]
  have hCleared : { Session.start .default .empty with table := .empty } =
      Session.start .default .empty := rfl
  rw [hCleared, hAll]
  simp only [smallOutcome, Except.map, if_neg hFiles]

/-- Reads the directory above the small project and writes an export. -/
def parsingAbove : Arguments :=
  ⟨.text ".", false, .parseProject "/" (some (.text "/out.jsonl"))⟩

theorem loadConfig_small : loadConfig smallProject (.text ".") = .ok .default := by
  obtain ⟨-, -, -, -, -, -, hConfig⟩ := answers_above_small
  exact hConfig

theorem resolveHome_above_small :
    smallProject.resolveHome (.ofString "/") = .ok (.ofString "/") := by
  obtain ⟨-, -, -, hAbove, -⟩ := answers_above_small
  exact hAbove

theorem outcome_parsingAbove :
    parsingAbove.command.outcome smallProject (.start .default .empty) = smallOutcome := by
  simp only [parsingAbove, Command.outcome, resolveHome_above_small, parseRoot_above_small]

theorem smallOutcome_ok :
    (Report.empty.add (projectReport (.ofString "/mod") smallPass)).ok = true :=
  smallPass_clean.2.1

/-- The run over the directory above the small project ends well. -/
theorem exit_parsingAbove : (run smallProject parsingAbove).exit = .ok 0 := by
  have hRun : run smallProject parsingAbove =
      finish smallProject smallOutcome (some (.text "/out.jsonl")) := by
    rw [← outcome_parsingAbove, ← runCommand_eq_finish rfl]
    simp only [run, parsingAbove, loadConfig_small]
  obtain ⟨-, -, -, -, hOut, hOpened, -⟩ := answers_above_small
  obtain ⟨-, -, hWords⟩ := smallPass_clean
  obtain ⟨final, hWrite, -⟩ := Export.write_of_opened hWords hOpened
  rw [hRun]
  simp [finish, smallOutcome, smallOutcome_ok, finishExport, writeExport, hOut, hWrite, exitOk]

/-- A directory without a root lump is exported as the projects inside it are. -/
theorem export_above_small_project :
    (run smallProject parsingAbove).exit = .ok 0 ∧
      ¬ Project.HoldsLump smallProject (.ofString "/") ∧
      Exported smallProject (run smallProject parsingAbove).env (.text "/out.jsonl")
        smallPass.table ∧
      ∃ roots reports, Workspace.projectRoots smallProject (.ofString "/") false = .ok roots ∧
        List.Forall₂ (fun each found => reportOn smallProject .default each = .ok found) roots
          reports ∧
        smallPass.table = (readAll smallProject (.start .default .empty) roots).table ∧
        total Report.functions reports = 1 := by
  have hLumps : ¬ Project.HoldsLump smallProject (.ofString "/") := by
    simp [← Project.rootLumps_ne_nil_iff rootLumps_above_small]
  obtain ⟨path, fault, hRefused, -⟩ | ⟨config, report, hLoaded, hReport, -, hOk, hWorkspace⟩ :=
    exports_only_clean_parse smallProject parsingAbove (.text "/out.jsonl") 0 rfl exit_parsingAbove
  · cases loadConfig_small.symm.trans hRefused
  · obtain rfl : Config.default = config := Except.ok.inj (loadConfig_small.symm.trans hLoaded)
    rw [outcome_parsingAbove] at hReport hOk
    obtain ⟨roots, reports, hRoots, hReports, hTable, hFunctions, -⟩ :=
      hWorkspace "/" (.ofString "/") rfl resolveHome_above_small (by decide +kernel) hLumps
    rw [outcome_parsingAbove] at hTable
    cases hReport
    have hCount : (Report.empty.add (projectReport (.ofString "/mod") smallPass)).functions =
        1 := by decide +kernel
    exact ⟨exit_parsingAbove, hLumps, (hOk smallOutcome_ok).2, roots, reports, hRoots, hReports,
      hTable, hFunctions.symm.trans hCount⟩

end SmallProject

end CommandLine

end SignatureIndex
