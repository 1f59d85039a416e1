import Mathlib.Data.List.Forall2
import SignatureIndex.Proofs.Boundary
import SignatureIndex.Proofs.LastWriter

/-! Archives that cannot be read as a whole. Of an archive that opens, the script entries before the
first unreadable one are read, and no other entry matters. The table then holds what these scripts
declare and nothing else, the report counts them, and a listing names them; an archive that does not
open leaves the table as it was. Only a failure that is not one of archives takes the place of the
report. -/
namespace SignatureIndex

open Table (sourced declaredCount)

namespace Archive

/-- Whether an entry is a script that is selected. -/
def Selection.isScript (selection : Selection) (header : Header) : Bool :=
  !header.isDirectory && selection.includes header.name

/-- Entries that can be read, with what they hold. -/
def Reads (bytes : List UInt8) (entries : List Header) (scripts : List Source.Script) : Prop :=
  List.Forall₂ (fun header script =>
    readEntryText bytes header = .ok script.text ∧ script.identifier = header.name) entries scripts

/-- How far entries can be read: all of them, or those before one that cannot be read. -/
inductive ReadsTo (bytes : List UInt8) :
    List Header → List Source.Script → Option Failure → Prop where
  | all {entries : List Header} {scripts : List Source.Script}
      (hAll : Reads bytes entries scripts) : ReadsTo bytes entries scripts none
  | upTo {before after : List Header} {header : Header} {scripts : List Source.Script}
      {failure : Failure} (hBefore : Reads bytes before scripts)
      (hFailed : readEntryText bytes header = .error failure) :
      ReadsTo bytes (before ++ header :: after) scripts (some failure)

/-- One more entry that can be read is one more script. -/
theorem ReadsTo.cons {bytes : List UInt8} {header : Header} {text : String} {entries : List Header}
    {scripts : List Source.Script} {failure? : Option Failure}
    (hText : readEntryText bytes header = .ok text)
    (h : ReadsTo bytes entries scripts failure?) :
    ReadsTo bytes (header :: entries) (⟨header.name, text⟩ :: scripts) failure? := by
  cases h with
  | all hAll => exact .all (.cons ⟨hText, rfl⟩ hAll)
  | upTo hBefore hFailed => exact .upTo (.cons ⟨hText, rfl⟩ hBefore) hFailed

/-- The scripts that a way through an archive comes to before a failure ends it. -/
def met : List Visit → List Source.Script
  | [] => []
  | .skipped _ :: rest => met rest
  | .script script :: rest => script :: met rest
  | .failed _ :: _ => []

/-- A way through an archive comes to its script entries in order, up to one that cannot be
read. -/
theorem readsTo_visitsOf (bytes : List UInt8) (selection : Selection) (headers : List Header) :
    ReadsTo bytes (headers.filter selection.isScript) (met (visitsOf bytes selection headers))
      (failure? (visitsOf bytes selection headers)) := by
  induction headers with
  | nil => exact .all .nil
  | cons header rest ih =>
      rw [visitsOf]
      by_cases hDirectory : header.isDirectory
      · have hOther : ¬selection.isScript header := by simp [Selection.isScript, hDirectory]
        rw [if_pos hDirectory, List.filter_cons_of_neg hOther]
        exact ih
      · rw [if_neg hDirectory]
        by_cases hName : selection.includes header.name
        · have hScript : selection.isScript header := by
            simp [Selection.isScript, hDirectory, hName]
          rw [if_neg (by simp [hName]), List.filter_cons_of_pos hScript]
          cases hText : readEntryText bytes header with
          | error failure =>
              have hNothing : Reads bytes [] [] := .nil
              exact .upTo hNothing hText
          | ok text => exact ih.cons hText
        · have hOther : ¬selection.isScript header := by simp [Selection.isScript, hName]
          rw [if_pos (by simp [hName]), List.filter_cons_of_neg hOther]
          exact ih

end Archive

namespace Session

open Archive (met failure?)

/-- What an operation on an archive gives in the end: with a failure of archives the report has it
for its only notice, and with any other failure there is no report. -/
def concluded (what : String) (path : Path) (done : List Notice) (report : Report) :
    Option Failure → Except Failure Report
  | none => .ok { report with notices := done }
  | some failure =>
    if isArchiveFailure failure then
      let told := what ++ " " ++ path.name ++ ": " ++ failure.message
      .ok { report with notices := [⟨.error, told⟩] }
    else .error failure

/-- What is told when an archive was read. -/
def parsedNotice (path : Path) (functions : Nat) : Notice :=
  ⟨.info, "Parsed " ++ toString functions ++ " built-in functions from " ++ path.name⟩

/-- What a listing has of a script. -/
def listing (count : Option Int) (script : Source.Script) : Listing :=
  ⟨script.identifier, script.head count⟩

/-- The verdict and the number of files do not depend on what else is told. -/
theorem concluded_verdict {path : Path} {first second : List Notice} {one other : Report}
    (what how : String) (failure : Option Failure)
    (hFirst : ∀ notice ∈ first, notice.level ≠ .error)
    (hSecond : ∀ notice ∈ second, notice.level ≠ .error) (hFiles : one.files = other.files) :
    (concluded what path first one failure).map (fun report => (report.ok, report.files)) =
      (concluded how path second other failure).map fun report => (report.ok, report.files) := by
  cases failure with
  | none =>
      have hNone {notices : List Notice} (h : ∀ notice ∈ notices, notice.level ≠ .error) :
          notices.any (·.level = .error) = false := by
        simpa using h
      simp [concluded, Except.map, Report.ok, hNone hFirst, hNone hSecond, hFiles]
  | some failure =>
      by_cases hArchive : isArchiveFailure failure
      · simp [concluded, hArchive, Except.map, Report.ok, hFiles]
      · simp [concluded, hArchive, Except.map]

section Visits

variable (path : Path) (session : Session) (report : Report) (log : List LogLine)

theorem tellArchiveFailure_result (what : String) (done : List Notice) (failure : Failure)
    (hReport : report.notices = []) :
    (session.tellArchiveFailure report log what path failure).result =
      concluded what path done report (some failure) := by
  by_cases hArchive : isArchiveFailure failure
  · simp [tellArchiveFailure, concluded, hArchive, Report.notify, hReport]
  · simp [tellArchiveFailure, concluded, hArchive]

/-- The scripts met on the way are scanned in order, and nothing else of the session changes. -/
theorem readVisits_scans (visits : List Archive.Visit) :
    (readVisits path session report log visits).session =
      session.withTable (((met visits).map sourced).foldl Table.scan session.table) := by
  induction visits generalizing session report log with
  | nil => rfl
  | cons visit rest ih =>
      cases visit with
      | skipped name => exact ih session report _
      | script script => exact ih _ _ _
      | failed failure => exact tellArchiveFailure_session session report log _ path failure

/-- Reading what an archive holds concludes with the scripts that were met. -/
theorem readVisits_concluded (visits : List Archive.Visit) (hReport : report.notices = []) :
    (readVisits path session report log visits).result =
      let functions := report.functions + declaredCount ((met visits).map sourced)
      concluded "Error parsing" path [parsedNotice path functions]
        { report with functions, files := report.files + (met visits).length }
        (failure? visits) := by
  induction visits generalizing session report log with
  | nil => simp [readVisits, concluded, Report.notify, hReport, met, failure?, declaredCount,
      parsedNotice]
  | cons visit rest ih =>
      cases visit with
      | skipped name => exact ih session report _ hReport
      | script script =>
          apply (ih _ _ _ ?_).trans
          · simp only [met, declaredCount, List.map_cons, List.length_cons]
            rw [Nat.add_assoc, Nat.add_assoc, Nat.add_comm 1]
            rfl
          · exact hReport
      | failed failure =>
          exact tellArchiveFailure_result path session report log "Error parsing" _ failure hReport

/-- Listing what an archive holds concludes with the scripts that were met. -/
theorem listVisits_concluded (count : Option Int) (visits : List Archive.Visit)
    (hReport : report.notices = []) :
    (listVisits path count session report log visits).result =
      concluded "Error listing files in" path []
        { report with
          files := report.files + (met visits).length
          listings := report.listings ++ (met visits).map (listing count) }
        (failure? visits) := by
  induction visits generalizing report log with
  | nil => simp [listVisits, concluded, ← hReport, met, failure?]
  | cons visit rest ih =>
      cases visit with
      | skipped name => exact ih report _ hReport
      | script script =>
          apply (ih _ log ?_).trans
          · simp only [met, List.map_cons, List.length_cons, List.append_assoc]
            rw [Nat.add_assoc, Nat.add_comm 1]
            rfl
          · exact hReport
      | failed failure =>
          rw [listVisits]
          simp [tellArchiveFailure_result path session report log "Error listing files in" []
            failure hReport, met, failure?]

end Visits

section Archives

variable {env : Environment} {session : Session} {asked : Option String} {path : Path}

/-- An archive that cannot be opened leaves the session alone and is told of. -/
theorem parseArchive_of_closed {failure : Failure}
    (hPath : session.config.archivePath env asked = .ok (some path))
    (hArchive : Archive.ofFile env path = .error failure) :
    (session.parseArchive env asked).session = session ∧
      (session.parseArchive env asked).result =
        concluded "Error parsing" path [] .empty (some failure) := by
  simp only [parseArchive, hPath, hArchive]
  exact ⟨tellArchiveFailure_session _ _ _ _ _ _, tellArchiveFailure_result _ _ _ _ _ _ _ rfl⟩

theorem listFiles_of_closed {failure : Failure} (count : Option Int)
    (hPath : session.config.archivePath env asked = .ok (some path))
    (hArchive : Archive.ofFile env path = .error failure) :
    (session.listFiles env asked count).result =
      concluded "Error listing files in" path [] .empty (some failure) := by
  simp only [listFiles, hPath, hArchive]
  exact tellArchiveFailure_result _ _ _ _ _ _ _ rfl

/-- An archive that was opened stores the scripts that were met and tells how it ended. -/
theorem parseArchive_of_open {archive : Archive}
    (hPath : session.config.archivePath env asked = .ok (some path))
    (hArchive : Archive.ofFile env path = .ok archive) :
    let scripts := met (archive.visits session.selection)
    (session.parseArchive env asked).session =
        session.withTable ((scripts.map sourced).foldl Table.scan .empty) ∧
      (session.parseArchive env asked).result =
        concluded "Error parsing" path [parsedNotice path (declaredCount (scripts.map sourced))]
          ⟨[], declaredCount (scripts.map sourced), scripts.length, []⟩
          (failure? (archive.visits session.selection)) := by
  intro scripts
  simp only [parseArchive, hPath, hArchive]
  constructor
  · exact readVisits_scans path _ _ _ _
  · rw [readVisits_concluded path _ .empty _ _ rfl]
    simp only [Report.empty, Nat.zero_add]
    rfl

theorem listFiles_of_open {archive : Archive} (count : Option Int)
    (hPath : session.config.archivePath env asked = .ok (some path))
    (hArchive : Archive.ofFile env path = .ok archive) :
    let scripts := met (archive.visits session.selection)
    (session.listFiles env asked count).result =
      concluded "Error listing files in" path []
        ⟨[], 0, scripts.length, scripts.map (listing count)⟩
        (failure? (archive.visits session.selection)) := by
  intro scripts
  simp only [listFiles, hPath, hArchive]
  rw [listVisits_concluded path _ .empty _ _ _ rfl]
  simp only [Report.empty, Nat.zero_add, List.nil_append]
  rfl

end Archives

/-- What an archive that cannot be read as a whole leaves. Without an archive that opens the session
stays as it was. Otherwise exactly the script entries before the first unreadable one are scanned,
into an empty table, and counted. Listing the archive comes to the same entries and to the same
verdict. A failure that is not one of archives is of a few kinds, and is all that is given. -/
theorem archive_failure_leaves_defined_state (env : Environment) (session : Session)
    (asked : Option String) (count : Option Int) :
    let parsed := session.parseArchive env asked
    let listed := session.listFiles env asked count
    parsed.session.parsedRoots = session.parsedRoots ∧
    parsed.session.config = session.config ∧
    listed.session = session ∧
    parsed.result.map (fun report => (report.ok, report.files)) =
      listed.result.map (fun report => (report.ok, report.files)) ∧
    (∀ failure, parsed.result = .error failure →
      listed.result = .error failure ∧ (Operation.parseArchive asked).untold failure = true) ∧
    match session.config.archivePath env asked with
    | .error failure => parsed.session = session ∧ parsed.result = .error failure
    | .ok none =>
      parsed.session = session ∧
      parsed.result = .ok ⟨[⟨.error, missingArchive⟩], 0, 0, []⟩ ∧
      listed.result = .ok ⟨[⟨.error, missingArchive⟩], 0, 0, []⟩
    | .ok (some path) =>
      match Archive.ofFile env path with
      | .error failure =>
        parsed.session = session ∧
        parsed.result = concluded "Error parsing" path [] .empty (some failure) ∧
        listed.result = concluded "Error listing files in" path [] .empty (some failure)
      | .ok archive =>
        ∃ scripts failure?,
          Archive.ReadsTo archive.bytes (archive.headers.filter session.selection.isScript)
            scripts failure? ∧
          parsed.session.table = (scripts.map sourced).foldl Table.scan .empty ∧
          parsed.result =
            concluded "Error parsing" path [parsedNotice path (declaredCount (scripts.map sourced))]
              ⟨[], declaredCount (scripts.map sourced), scripts.length, []⟩ failure? ∧
          listed.result =
            concluded "Error listing files in" path []
              ⟨[], 0, scripts.length, scripts.map (listing count)⟩ failure? := by
  intro parsed listed
  have hUntold (failure : Failure) (hParsed : parsed.result = .error failure) :
      listed.result = .error failure ∧ (Operation.parseArchive asked).untold failure = true := by
    have hEscapes := ((ends_parseArchive env session asked).1 failure).mp hParsed
    exact ⟨((ends_listFiles env session asked count).1 failure).mpr hEscapes,
      untold_of_archive env session (.inl rfl) hEscapes⟩
  have hListed : listed.session = session := listFiles_session env session asked count
  rcases hPath : session.config.archivePath env asked with failure | (_ | path)
  · have hParsed : parsed = session.unchanged (.error failure) [] := by
      simp only [parsed, parseArchive, hPath]
    have hResult : listed.result = .error failure := by
      simp only [listed, listFiles, hPath, unchanged]
    rw [hParsed] at hUntold ⊢
    rw [hResult] at hUntold ⊢
    exact ⟨rfl, rfl, hListed, rfl, hUntold, rfl, rfl⟩
  · have hParsed : parsed = session.withoutArchive := by
      simp only [parsed, parseArchive, hPath]
    have hResult : listed = session.withoutArchive := by
      simp only [listed, listFiles, hPath]
    rw [hParsed] at hUntold ⊢
    rw [hResult] at hUntold ⊢
    exact ⟨rfl, rfl, rfl, rfl, hUntold, rfl, rfl, rfl⟩
  · simp only
    cases hArchive : Archive.ofFile env path with
    | error failure =>
        obtain ⟨hSession, hParsed⟩ := parseArchive_of_closed hPath hArchive
        have hResult := listFiles_of_closed count hPath hArchive
        refine ⟨congrArg parsedRoots hSession, congrArg config hSession, hListed, ?_, hUntold,
          hSession, hParsed, hResult⟩
        rw [hParsed, hResult]
        exact concluded_verdict _ _ _ (by simp) (by simp) rfl
    | ok archive =>
        obtain ⟨hSession, hParsed⟩ := parseArchive_of_open hPath hArchive
        have hResult := listFiles_of_open count hPath hArchive
        refine ⟨(congrArg parsedRoots hSession).trans rfl, (congrArg config hSession).trans rfl,
          hListed, ?_, hUntold, _, _,
          Archive.readsTo_visitsOf archive.bytes session.selection archive.headers,
          (congrArg table hSession).trans rfl, hParsed, hResult⟩
        rw [hParsed, hResult]
        exact concluded_verdict _ _ _ (by simp [parsedNotice]) (by simp) rfl

/-- An archive with one script entry. Its name is damaged where the entry itself starts: a bit of
the second byte of a two-byte character is lost. -/
def damagedName : Environment where
  tree := .ofEntries [(["x.pk3"], .file (
    [0x50, 0x4B, 3, 4, 20, 0, 0, 8, 0, 0, 0, 0, 33, 0, 0, 0, 0, 0, 0, 0, 0, 0, 0, 0, 0, 0, 13, 0,
      0, 0] ++ Text.encodeUtf8 "zscript/".toList ++ [0xC3, 0x29] ++ Text.encodeUtf8 ".zs".toList ++
    [0x50, 0x4B, 1, 2, 20, 0, 20, 0, 0, 8, 0, 0, 0, 0, 33, 0, 0, 0, 0, 0, 0, 0, 0, 0, 0, 0, 0, 0,
      13, 0, 0, 0, 0, 0, 0, 0, 0, 0, 0, 0, 0, 0, 0, 0, 0, 0] ++
      Text.encodeUtf8 "zscript/é.zs".toList ++
    [0x50, 0x4B, 5, 6, 0, 0, 0, 0, 1, 0, 1, 0, 59, 0, 0, 0, 43, 0, 0, 0, 0, 0]))]
  working := []
  stands := rfl

/-- An archive that opens may still be read without a report: a damaged name ends it. -/
theorem no_report_for_damaged_name :
    ¬ ∀ (env : Environment) (session : Session) (asked : Option String),
      (archive? env session.config asked).isSome = true →
        ∃ report, (session.parseArchive env asked).result = .ok report := by
  intro hAll
  have hOpen : (archive? damagedName .default (some "x.pk3")).isSome = true := by decide +kernel
  obtain ⟨report, hReport⟩ := hAll damagedName (start .default .empty) (some "x.pk3") hOpen
  have hFailure : ((start .default .empty).parseArchive damagedName (some "x.pk3")).result =
      .error .undecodable := by decide +kernel
  rw [hFailure] at hReport
  cases hReport

end Session

end SignatureIndex
