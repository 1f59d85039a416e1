import SignatureIndex.Archive
import SignatureIndex.Config
import SignatureIndex.Project
import SignatureIndex.Report

/-! A session: a configuration, the signature table, and the roots of the projects that were read.
Every operation gives a report or a failure, the session after it, and what it logs; the table may
have changed even if the operation fails. -/
namespace SignatureIndex

open Text

/-- The state of a session. -/
structure Session where
  config : Config
  table : Table
  parsedRoots : List String

structure Outcome (α : Type) where
  result : Except Failure α
  session : Session
  log : List LogLine

namespace Session

def start (config : Config) (table : Table) : Session :=
  ⟨config, table, []⟩

def channel : String := "session"

def line (level : LogLevel) (message : String) : LogLine :=
  ⟨level, channel, message⟩

def unchanged {α : Type} (session : Session) (result : Except Failure α) (log : List LogLine) :
    Outcome α :=
  ⟨result, session, log⟩

/-- What the user is told when no archive is known. -/
def missingArchive : String := "Set the \"gzdoom_pk3_path\" setting first."

def selection (session : Session) : Archive.Selection :=
  ⟨session.config.scriptDirectory, session.config.skippedExtensions⟩

/-- Whether a failure is one of archives, which a report can tell. -/
def isArchiveFailure : Failure → Bool
  | .archiveOpening _ _ => true
  | .archiveEntry _ _ => true
  | _ => false

/-- Tells a failure of archives in a report; any other failure ends the operation. -/
def tellArchiveFailure (session : Session) (report : Report) (log : List LogLine)
    (what : String) (path : Path) (failure : Failure) : Outcome Report :=
  if isArchiveFailure failure then
    let tell (subject : String) : String := what ++ " " ++ subject ++ ": " ++ failure.message
    ⟨.ok (report.notify .error (tell path.name)), session,
      log ++ [line .error (tell path.toString)]⟩
  else ⟨.error failure, session, log⟩

def withoutArchive (session : Session) : Outcome Report :=
  session.unchanged (.ok (Report.empty.notify .error missingArchive))
    [line .error "No archive path set"]

/-- Reads the scripts of an archive into the table, up to one that cannot be read. -/
def readVisits (path : Path) (session : Session) (report : Report) (log : List LogLine) :
    List Archive.Visit → Outcome Report
  | [] =>
    let summary := "Processed " ++ toString report.files ++ " script files with " ++
      toString report.functions ++ " functions (" ++ toString session.table.size ++
      " signatures in table)"
    let told := "Parsed " ++ toString report.functions ++ " built-in functions from " ++ path.name
    ⟨.ok (report.notify .info told), session, log ++ [line .info summary]⟩
  | .skipped name :: rest =>
    readVisits path session report (log ++ [Archive.skippedLine name]) rest
  | .script script :: rest =>
    let (table, count, events) := Scan.intoTable session.table script.text (some script.identifier)
    let report := { report with
      functions := report.functions + count
      files := report.files + 1 }
    readVisits path { session with table } report
      (log ++ line .debug ("Processing script entry: " ++ script.identifier) ::
        events.map Scan.Event.toLogLine) rest
  | .failed failure :: _ => session.tellArchiveFailure report log "Error parsing" path failure

/-- Reads an archive into the table, which is emptied once the archive is open. -/
def parseArchive (env : Environment) (session : Session) (asked : Option String) :
    Outcome Report :=
  match session.config.archivePath env asked with
  | .error failure => session.unchanged (.error failure) []
  | .ok none => session.withoutArchive
  | .ok (some path) =>
    let started := [line .info ("Parsing archive " ++ path.toString)]
    match Archive.ofFile env path with
    | .error failure => session.tellArchiveFailure .empty started "Error parsing" path failure
    | .ok archive =>
      readVisits path { session with table := .empty } .empty (started ++ [archive.openedLine])
        (archive.visits session.selection)

/-- Lists the scripts of an archive, up to one that cannot be read. -/
def listVisits (path : Path) (count : Option Int) (session : Session) (report : Report)
    (log : List LogLine) : List Archive.Visit → Outcome Report
  | [] => ⟨.ok report, session, log⟩
  | .skipped name :: rest =>
    listVisits path count session report (log ++ [Archive.skippedLine name]) rest
  | .script script :: rest =>
    let report := { report with
      listings := report.listings ++ [⟨script.identifier, script.head count⟩]
      files := report.files + 1 }
    listVisits path count session report log rest
  | .failed failure :: _ =>
    session.tellArchiveFailure report log "Error listing files in" path failure

/-- Lists the scripts of an archive with their first lines. -/
def listFiles (env : Environment) (session : Session) (asked : Option String)
    (count : Option Int) :
    Outcome Report :=
  match session.config.archivePath env asked with
  | .error failure => session.unchanged (.error failure) []
  | .ok none => session.withoutArchive
  | .ok (some path) =>
    match Archive.ofFile env path with
    | .error failure =>
      session.tellArchiveFailure .empty [] "Error listing files in" path failure
    | .ok archive =>
      listVisits path count session .empty [archive.openedLine] (archive.visits session.selection)

def readSingle (session : Session) (path : Path) (text : String) (clear : Bool) :
    Outcome Report :=
  let before := if clear then Table.empty else session.table
  let (table, count, events) := Scan.intoTable before text (some path.toString)
  let told := "Parsed " ++ toString count ++ " functions from " ++ path.name
  ⟨.ok { notices := [⟨.info, told⟩], functions := count, files := 1, listings := [] },
    { session with table }, events.map Scan.Event.toLogLine⟩

/-- Reads a single file into the table, which is emptied first if asked for. -/
def parseFile (env : Environment) (session : Session) (path : Path) (clear : Bool) :
    Outcome Report :=
  match env.expandHome path with
  | .error failure => session.unchanged (.error failure) []
  | .ok file =>
    match env.isFile file with
    | .error failure => session.unchanged (.error failure) []
    | .ok false =>
      let told := "File not found: " ++ file.toString
      session.unchanged (.ok (Report.empty.notify .error told)) [line .error told]
    | .ok true =>
      match env.readScript file with
      | .ok text => session.readSingle file text clear
      | .error failure =>
        if failure.isFile then
          session.unchanged
            (.ok (Report.empty.notify .error
              ("Error parsing " ++ file.name ++ ": " ++ failure.message)))
            [line .error ("Error reading " ++ file.toString ++ ": " ++ failure.message)]
        else session.unchanged (.error failure) []

def missingNotices (missing : List (String × String)) : List Notice :=
  missing.map fun (including, target) =>
    ⟨.warning, "Include " ++ quotedString target ++ " from " ++ including ++ " not found"⟩

def projectReport (root : Path) (pass : Project.Pass) : Report where
  notices := missingNotices pass.missing ++ [⟨.info, "Parsed " ++ toString pass.functions ++
    " functions from " ++ toString pass.files.length ++ " files in " ++ root.name⟩]
  functions := pass.functions
  files := pass.files.length
  listings := []

def addRoot (roots : List String) (root : String) : List String :=
  if root ∈ roots then roots else roots ++ [root]

/-- Tells a failure of the file tree in a report; any other failure ends the operation. What the
pass put into the table stays. -/
def tellProjectFailure (session : Session) (root : Path) (pass : Project.Pass) (failure : Failure) :
    Outcome Report :=
  let changed := { session with table := pass.table }
  if failure.isFile then
    let tell (subject : String) : String :=
      "Error parsing project " ++ subject ++ ": " ++ failure.message
    ⟨.ok (Report.empty.notify .error (tell root.name)), changed,
      pass.log ++ [line .error (tell root.toString)]⟩
  else ⟨.error failure, changed, pass.log⟩

/-- Reads a project into the table, which is emptied first if asked for. The project is remembered
by the real form of its root's path, which is settled once more for that. -/
def parseProject (env : Environment) (session : Session) (path : Path) (clear : Bool) :
    Outcome Report :=
  match env.resolveHome path with
  | .error failure => session.unchanged (.error failure) []
  | .ok root =>
    match env.isDirectory root with
    | .error failure => session.unchanged (.error failure) []
    | .ok false =>
      session.unchanged
        (.ok (Report.empty.notify .error ("Project directory not found: " ++ root.toString))) []
    | .ok true =>
      let table := if clear then Table.empty else session.table
      match Project.parse env root table [] with
      | (pass, none) =>
        match env.resolveHome root with
        | .error failure => session.tellProjectFailure root pass failure
        | .ok known =>
          ⟨.ok (projectReport root pass),
            { session with
              table := pass.table
              parsedRoots := addRoot session.parsedRoots known.toString },
            pass.log⟩
      | (pass, some failure) => session.tellProjectFailure root pass failure

/-- The nearest of some directories that holds a root lump. -/
def rootAmong (env : Environment) : List Path → Except Failure (Option Path)
  | [] => .ok none
  | directory :: rest =>
    match Project.rootLumps env directory with
    | .error failure => .error failure
    | .ok [] => rootAmong env rest
    | .ok (_ :: _) => .ok (some directory)

def projectRoot (env : Environment) (path : Path) : Except Failure (Option Path) :=
  match env.resolveHome path with
  | .error failure => .error failure
  | .ok real => rootAmong env real.parents

/-- Reads the project of a document that was opened, unless it was read before. Signatures in the
table are kept. Nothing is done for other languages and for documents without a path. -/
def openDocument (env : Environment) (session : Session) (language path : Option String) :
    Outcome (Option Report) :=
  match path.filter (· ≠ "") with
  | none => session.unchanged (.ok none) []
  | some text =>
    if language ≠ some session.config.language then session.unchanged (.ok none) []
    else match projectRoot env (.ofString text) with
      | .error failure => session.unchanged (.error failure) []
      | .ok none => session.unchanged (.ok none) []
      | .ok (some root) =>
        match env.resolveHome root with
        | .error failure => session.unchanged (.error failure) []
        | .ok real =>
          if real.toString ∈ session.parsedRoots then session.unchanged (.ok none) []
          else
            let outcome := parseProject env session root false
            ⟨outcome.result.map some, outcome.session, outcome.log⟩

def signatureHelp (session : Session) (document : Document) :
    Option SignatureHelp × List LogLine :=
  document.signatureHelp session.table session.config.language

def completions (session : Session) (document : Document) : List Completion × List LogLine :=
  document.completions session.table session.config.language

end Session

end SignatureIndex
