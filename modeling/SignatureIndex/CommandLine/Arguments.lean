import SignatureIndex.CommandLine.Grammar

/-! The commands of the program and the arguments they take. -/
namespace SignatureIndex.CommandLine

inductive Command where
  /-- Read an archive. -/
  | parseArchive (archive : Option String) (out : Option OptionValue)
  /-- Read one file. -/
  | parseFile (file : String) (out : Option OptionValue)
  /-- Read a project, or every project in a directory. -/
  | parseProject (root : String) (out : Option OptionValue)
  /-- List the scripts of an archive. -/
  | listFiles (archive : Option String)
  /-- Show the parameter reached in a call being typed. -/
  | signatureHelp (sources : List String) (archive : Option String) (text : OptionValue)
  /-- List functions whose names start in some way. -/
  | complete (sources : List String) (archive : Option String) (start : OptionValue)
  deriving DecidableEq, Repr

structure Arguments where
  configRoot : OptionValue
  verbose : Bool
  command : Command
  deriving DecidableEq, Repr

def programName : String := "zsig"

def helpOption : OptionRule := ⟨["-h", "--help"], .help, false⟩

def valueOption (name : String) (required : Bool) : OptionRule := ⟨[name], .value, required⟩

def archiveOption : OptionRule := valueOption "--pk3" false

def outOption : OptionRule := valueOption "--out" false

def textOption : OptionRule := valueOption "--text" true

def startOption : OptionRule := valueOption "--prefix" true

def configOption : OptionRule := valueOption "--config-root" false

def verboseOption : OptionRule := ⟨["-v", "--verbose"], .switch, false⟩

def commandGrammar (name : String) (positional : Option PositionalRule)
    (options : List OptionRule) : String × Grammar :=
  (name, ⟨programName ++ " " ++ name, positional, helpOption :: options⟩)

/-- The script files or project directories to load first. -/
def sourcesRule : PositionalRule := ⟨"sources", .any⟩

def commandGrammars : List (String × Grammar) :=
  [commandGrammar "parse-pk3" none [archiveOption, outOption],
    commandGrammar "parse-file" (some ⟨"file", .one⟩) [outOption],
    commandGrammar "parse-project" (some ⟨"root", .one⟩) [outOption],
    commandGrammar "list-files" none [archiveOption],
    commandGrammar "signature-help" (some sourcesRule) [archiveOption, textOption],
    commandGrammar "complete" (some sourcesRule) [archiveOption, startOption]]

def mainGrammar : Grammar where
  program := programName
  positional := some ⟨"command", .command (commandGrammars.map (·.1))⟩
  options := [helpOption, configOption, verboseOption]

/-- The command that a name and its arguments stand for. -/
def commandOf? (name : String) (parsed : Parsed) : Option Command :=
  let archive := (parsed.value? archiveOption.title).bind OptionValue.content?
  let out := parsed.value? outOption.title
  let words := parsed.words.getD []
  let first := words.headD ""
  match name with
  | "parse-pk3" => some (.parseArchive archive out)
  | "parse-file" => some (.parseFile first out)
  | "parse-project" => some (.parseProject first out)
  | "list-files" => some (.listFiles archive)
  | "signature-help" =>
    some (.signatureHelp words archive ((parsed.value? textOption.title).getD (.text "")))
  | "complete" =>
    some (.complete words archive ((parsed.value? startOption.title).getD (.text "")))
  | _ => none

/-- The arguments of a run. Words that neither the program nor the command knows are refused, those
of the program first. -/
def Arguments.read (words : List String) : Except Halt Arguments :=
  match mainGrammar.read words with
  | .error halt => .error halt
  | .ok parsed =>
    let name := (parsed.words.getD []).headD ""
    match commandGrammars.lookup name with
    | none => .error (.usage programName (.missing ["command"]))
    | some grammar =>
      match grammar.read ((parsed.words.getD []).drop 1) with
      | .error halt => .error halt
      | .ok inner =>
        match parsed.extras ++ inner.extras, commandOf? name inner with
        | [], some command =>
          .ok ⟨(parsed.value? configOption.title).getD (.text "."),
            parsed.has verboseOption.title, command⟩
        | extras, _ => .error (.usage programName (.unrecognized extras))

/-- The last line of the message on a fault in the arguments. -/
def usageLine (program : String) (fault : UsageFault) : String :=
  program ++ ": error: " ++ fault.message

/-- A short description of how the program is used. -/
def usageText : String :=
  "usage: " ++ programName ++ " [-h] [--config-root DIR] [-v] COMMAND ...\n" ++
    "commands: " ++ ", ".intercalate (commandGrammars.map (·.1)) ++ "\n"

end SignatureIndex.CommandLine
