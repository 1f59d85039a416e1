import SignatureIndex.CommandLine.Arguments
import SignatureIndex.Export
import SignatureIndex.Session
import SignatureIndex.Workspace

/-! Running a command: what it writes to both output streams, in order, its exit code, and the
environment that it leaves. -/
namespace SignatureIndex.CommandLine

inductive Emission where
  /-- Text on the standard output. -/
  | out (text : String)
  /-- Text on the error output. -/
  | err (text : String)
  /-- A log line, on the error output. -/
  | log (line : LogLine)
  /-- The refusal of a configuration file, on the error output. -/
  | refused (path : String) (fault : ConfigFault)
  deriving DecidableEq, Repr

/-- What a command gives: its exit code or the failure that ends it, what it wrote, and the
environment after it. -/
structure Run where
  exit : Except Failure Nat
  emissions : List Emission
  env : Environment

def exitOk : Nat := 0

def exitNoResult : Nat := 1

def exitError : Nat := 2

/-- A notice as it is written. Only information goes to the standard output. -/
def emissionOf (notice : Notice) : Emission :=
  match notice.level with
  | .info => .out (notice.message ++ "\n")
  | level => .err (level.word ++ ": " ++ notice.message ++ "\n")

def emit (report : Report) : List Emission :=
  report.notices.map emissionOf

def logged (lines : List LogLine) : List Emission :=
  lines.map .log

def writeExport (env : Environment) (session : Session) (out : String) :
    Except Failure Nat × Environment :=
  match env.resolveHome (.ofString out) with
  | .error failure => (.error failure, env)
  | .ok path => Export.write env path session.table

/-- The failure of a path whose value was withdrawn, which leaves an empty list. -/
def withdrawnPath : Failure := .notPath (Value.list []).kindName

/-- Writes the export to a file that was asked for; gives what is written on success. -/
def finishExport (env : Environment) (session : Session) (told : List Emission) :
    OptionValue → Run
  | .withdrawn => ⟨.error withdrawnPath, told, env⟩
  | .text file =>
    match writeExport env session file with
    | (.error failure, final) => ⟨.error failure, told, final⟩
    | (.ok count, final) =>
      ⟨.ok exitOk,
        told ++ [.out ("Wrote " ++ toString count ++ " signatures to " ++ file ++ "\n")], final⟩

/-- Ends a command that reads signatures: its notices, and the export if it was asked for. -/
def finish (env : Environment) (outcome : Outcome Report) (out : Option OptionValue) : Run :=
  match outcome.result with
  | .error failure => ⟨.error failure, logged outcome.log, env⟩
  | .ok report =>
    let told := logged outcome.log ++ emit report
    if !report.ok then ⟨.ok exitError, told, env⟩
    else match out with
      | none => ⟨.ok exitOk, told, env⟩
      | some target => finishExport env outcome.session told target

/-- Reads projects one after the other into one table and adds up their reports. -/
def parseAll (env : Environment) (session : Session) (report : Report) (log : List LogLine) :
    List Path → Outcome Report
  | [] => ⟨.ok report, session, log⟩
  | root :: rest =>
    let outcome := session.parseProject env root false
    match outcome.result with
    | .error failure => ⟨.error failure, outcome.session, log ++ outcome.log⟩
    | .ok found => parseAll env outcome.session (report.add found) (log ++ outcome.log) rest

def parseWorkspace (env : Environment) (session : Session) (root : Path) : Outcome Report :=
  let cleared := { session with table := .empty }
  match Workspace.projectRoots env root session.config.nestedIgnoreFiles with
  | .error failure => ⟨.error failure, cleared, []⟩
  | .ok roots =>
    let outcome := parseAll env cleared .empty [] roots
    { outcome with
      result := outcome.result.map fun report =>
        if report.files = 0 ∧ report.ok then
          report.notify .warning ("No zscript lumps found under " ++ root.toString)
        else report }

/-- Reads the project at a root, or the projects below it if it has no root lump itself. -/
def parseRoot (env : Environment) (session : Session) (root : Path) : Outcome Report :=
  match env.isDirectory root with
  | .error failure => session.unchanged (.error failure) []
  | .ok false => session.parseProject env root true
  | .ok true =>
    match Project.rootLumps env root with
    | .error failure => session.unchanged (.error failure) []
    | .ok [] => parseWorkspace env session root
    | .ok (_ :: _) => session.parseProject env root true

/-- Reads the sources of a question: directories as projects, everything else as files. -/
def loadEach (env : Environment) (session : Session) (report : Report) (log : List LogLine) :
    List String → Outcome Report
  | [] => ⟨.ok report, session, log⟩
  | source :: rest =>
    match env.expandHome (.ofString source) with
    | .error failure => ⟨.error failure, session, log⟩
    | .ok path =>
      match env.isDirectory path with
      | .error failure => ⟨.error failure, session, log⟩
      | .ok isDirectory =>
        let outcome :=
          if isDirectory then session.parseProject env path false
          else session.parseFile env path false
        match outcome.result with
        | .error failure => ⟨.error failure, outcome.session, log ++ outcome.log⟩
        | .ok found =>
          loadEach env outcome.session (report.add found.withoutInfo) (log ++ outcome.log) rest

/-- Whether an archive is to be read before the sources of a question. -/
def wantsArchive (env : Environment) (session : Session) (archive : Option String) :
    Except Failure Bool :=
  match archive with
  | some _ => .ok true
  | none => (session.config.archivePath env none).map Option.isSome

/-- Reads the archive, if there is one, and then the sources of a question. -/
def loadSources (env : Environment) (session : Session) (sources : List String)
    (archive : Option String) : Outcome Report :=
  match wantsArchive env session archive with
  | .error failure => session.unchanged (.error failure) []
  | .ok false => loadEach env session .empty [] sources
  | .ok true =>
    let outcome := session.parseArchive env archive
    match outcome.result with
    | .error _ => outcome
    | .ok report =>
      if !report.ok then outcome
      else loadEach env outcome.session report outcome.log sources

/-- A document of one line with the cursor at its end. -/
def lineDocument (session : Session) (text : String) : Document :=
  ⟨text, 0, some text.length, some session.config.language, none⟩

/-- What a question without a text leads to: it is logged that it failed, and nothing is found. -/
def unanswered (what : String) (told : List Emission) : Nat × List Emission :=
  (exitNoResult, logged [Session.line .error (what ++ " failed")] ++ told)

def noSignature : Emission := .err "No signature found at cursor\n"

/-- The answer to a question for help on a text. -/
def helpFor (session : Session) (text : String) : Nat × List Emission :=
  let (help, log) := session.signatureHelp (lineDocument session text)
  match help.bind fun found => found.signatures[found.activeSignature]?.map (found, ·) with
  | none => (exitNoResult, logged log ++ [noSignature])
  | some (found, signature) =>
    let index := toString found.activeParameter
    let active := match signature.parameters[found.activeParameter]? with
      | some parameter =>
        index ++ " (" ++ parameter.declaredType ++ " " ++ parameter.name ++ ")"
      | none => index
    (exitOk, logged log ++ [.out (signature.label ++ "\n"),
      .out ("active parameter: " ++ active ++ "\n"), .out (signature.documentation ++ "\n")])

def answerHelp (session : Session) : OptionValue → Nat × List Emission
  | .text text => helpFor session text
  | .withdrawn => unanswered "Signature help" [noSignature]

/-- The answer to a question for completions of a start. -/
def completionsFor (session : Session) (start : String) : Nat × List Emission :=
  let (items, log) := session.completions (lineDocument session start)
  (if items.isEmpty then exitNoResult else exitOk,
    logged log ++ items.map fun item => .out (item.name ++ "\t" ++ item.label ++ "\n"))

def answerCompletions (session : Session) : OptionValue → Nat × List Emission
  | .text start => completionsFor session start
  | .withdrawn => unanswered "Completion" []

def question (env : Environment) (session : Session) (sources : List String)
    (archive : Option String) (answer : Session → Nat × List Emission) : Run :=
  let outcome := loadSources env session sources archive
  match outcome.result with
  | .error failure => ⟨.error failure, logged outcome.log, env⟩
  | .ok report =>
    if !report.ok then ⟨.ok exitError, logged outcome.log ++ emit report, env⟩
    else
      let (code, emissions) := answer outcome.session
      ⟨.ok code, logged outcome.log ++ emissions, env⟩

def listingLines (listing : Listing) : List Emission :=
  .out (listing.name ++ "\n") ::
    listing.lines.mapIdx fun index line => .out ("  " ++ toString index ++ ": " ++ line ++ "\n")

def list (env : Environment) (session : Session) (archive : Option String) : Run :=
  let outcome := session.listFiles env archive Source.previewCount
  match outcome.result with
  | .error failure => ⟨.error failure, logged outcome.log, env⟩
  | .ok report =>
    ⟨.ok (if report.ok then exitOk else exitError),
      logged outcome.log ++ report.listings.flatMap listingLines ++ emit report, env⟩

def runCommand (env : Environment) (session : Session) : Command → Run
  | .parseArchive archive out => finish env (session.parseArchive env archive) out
  | .parseFile file out => finish env (session.parseFile env (.ofString file) true) out
  | .parseProject root out =>
    match env.resolveHome (.ofString root) with
    | .error failure => ⟨.error failure, [], env⟩
    | .ok path => finish env (parseRoot env session path) out
  | .listFiles archive => list env session archive
  | .signatureHelp sources archive text =>
    question env session sources archive fun loaded => answerHelp loaded text
  | .complete sources archive start =>
    question env session sources archive fun loaded => answerCompletions loaded start

def loadConfig (env : Environment) : OptionValue → Except Failure Config
  | .withdrawn => .error withdrawnPath
  | .text root =>
    match env.resolveHome (.ofString root) with
    | .error failure => .error failure
    | .ok path => Config.load env path

def run (env : Environment) (arguments : Arguments) : Run :=
  match loadConfig env arguments.configRoot with
  | .error (.config path fault) => ⟨.ok exitError, [.refused path fault], env⟩
  | .error failure => ⟨.error failure, [], env⟩
  | .ok config => runCommand env (.start config .empty) arguments.command

/-- Whether a log line is written: warnings and errors, or everything if asked for. -/
def shows (verbose : Bool) (line : LogLine) : Bool :=
  verbose || decide (LogLevel.warning.rank ≤ line.level.rank)

def Emission.outText : Emission → String
  | out text => text
  | _ => ""

def Emission.errText (verbose : Bool) : Emission → String
  | out _ => ""
  | err text => text
  | log line => if shows verbose line then line.render ++ "\n" else ""
  | refused path fault => "error: " ++ (Failure.config path fault).message ++ "\n"

end SignatureIndex.CommandLine
