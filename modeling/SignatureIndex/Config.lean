import SignatureIndex.Document
import SignatureIndex.Environment
import SignatureIndex.Text.Lowercase
import SignatureIndex.Toml.Document
import SignatureIndex.Value.Literal

/-! The configuration: where the archive with built-in scripts lies, which of its entries are
scripts, the language served, and how ignore files are used. It is checked field by field; a list
of extensions that is no list at all ends the check at once. -/
namespace SignatureIndex

open Text

structure Config where
  archive : Option String
  scriptDirectory : String
  skippedExtensions : List String
  language : String
  nestedIgnoreFiles : Bool
  deriving DecidableEq, Repr

namespace Config

/-- The directory of scripts in an archive, unless another is named. -/
def defaultScriptDirectory : String := "zscript"

def defaultSkippedExtensions : List String := [".txt"]

def default : Config where
  archive := none
  scriptDirectory := defaultScriptDirectory
  skippedExtensions := defaultSkippedExtensions
  language := Document.defaultLanguage
  nestedIgnoreFiles := false

def trimSlashes (cs : List Char) : List Char :=
  dropEndWhile (· = '/') (cs.dropWhile (· = '/'))

/-- A directory name: without blanks and slashes around it, in lower case, and not empty. -/
def checkDirectory (value : Value) : Checked String :=
  match Checked.text value with
  | .invalid complaints => .invalid complaints
  | .valid s =>
    match lower (trimSlashes (trim s.toList)) with
    | [] => .fail (.refused "script_dir must be a non-empty directory name")
    | cleaned => .valid (String.ofList cleaned)

/-- An extension: without blanks around it, in lower case, with a dot in front. -/
def extensionOf? : Value → Option String
  | .text s =>
    match lower (trim s.toList) with
    | [] => none
    | '.' :: rest => some (String.ofList ('.' :: rest))
    | cs => some (String.ofList ('.' :: cs))
  | _ => none

def extensionMessage (value : Value) : String :=
  match value.literal? with
  | some form => "Invalid extension " ++ form ++ " in skip_extensions"
  | none =>
    "Exceeds the limit (4300 digits) for integer string conversion; " ++
      "use sys.set_int_max_str_digits() to increase the limit"

/-- Extensions; the first one that is none is refused. -/
def checkExtensions : List Value → Checked (List String)
  | [] => .valid []
  | value :: rest =>
    match extensionOf? value with
    | none => .fail (.refused (extensionMessage value))
    | some extension =>
      match checkExtensions rest with
      | .valid extensions => .valid (extension :: extensions)
      | .invalid complaints => .invalid complaints

/-- The skipped extensions; null stands for none. -/
def checkSkipped : Value → Checked (List String)
  | .list values => checkExtensions values
  | _ => .valid []

/-- Whether the skipped extensions are neither a list nor null. -/
def extensionsNotList (fields : Entries Value) : Bool :=
  match fields.get? "skip_extensions" with
  | none => false
  | some .null => false
  | some (.list _) => false
  | some _ => true

def fieldNames : List String :=
  ["gzdoom_pk3_path", "script_dir", "skip_extensions", "language_id", "nested_gitignore"]

def checkFields (fields : Entries Value) : Checked Config :=
  (fun config _ => config) <$>
    (Config.mk <$> Checked.withDefault "gzdoom_pk3_path" none (.nullable .text) fields
      <*> Checked.withDefault "script_dir" defaultScriptDirectory checkDirectory fields
      <*> Checked.withDefault "skip_extensions" defaultSkippedExtensions checkSkipped fields
      <*> Checked.withDefault "language_id" Document.defaultLanguage .text fields
      <*> Checked.withDefault "nested_gitignore" false .bool fields)
    <*> Checked.noOthers fieldNames fields

def ofValue (value : Value) : Except ConfigFault Config :=
  match value with
  | .record fields =>
    if extensionsNotList fields then .error .extensionsNotList
    else match (checkFields fields).toExcept with
      | .ok config => .ok config
      | .error complaints => .error (.complaints complaints)
  | _ => .error (.complaints [⟨[], .notRecord⟩])

def toValue (config : Config) : Value :=
  .record [
    ("gzdoom_pk3_path", match config.archive with
      | none => .null
      | some path => .text path),
    ("script_dir", .text config.scriptDirectory),
    ("skip_extensions", .list (config.skippedExtensions.map .text)),
    ("language_id", .text config.language),
    ("nested_gitignore", .bool config.nestedIgnoreFiles)]

/-- The first of some texts that is there and not empty. -/
def firstGiven (candidates : List (Option String)) : Option String :=
  candidates.findSome? fun candidate => candidate.filter (· ≠ "")

/-- Where the archive lies: as asked for, else as the environment says, else as configured. -/
def archivePath (config : Config) (env : Environment) (asked : Option String) :
    Except Failure (Option Path) :=
  match firstGiven [asked, env.archive, config.archive] with
  | none => .ok none
  | some text => (env.expandHome (Path.ofString text)).map some

def fileName : String := "zscript.toml"

/-- Reads the configuration file of a directory; without one the defaults apply. -/
def load (env : Environment) (directory : Path) : Except Failure Config :=
  let path := directory.child fileName
  match env.isFile path with
  | .error failure => .error failure
  | .ok false => .ok default
  | .ok true =>
    match env.readBytes path with
    | .error (.file error text) => .error (.config path.toString (.unopened error text))
    | .error failure => .error failure
    | .ok bytes =>
      match decodeStrict? bytes with
      | none => .error .undecodable
      | some text =>
        match Toml.read env.stack.settings text with
        | .error .malformed => .error (.config path.toString .unreadable)
        | .error (.longNumber digits) => .error (.longNumber digits)
        | .error .nesting => .error .stackOverflow
        | .ok fields =>
          match ofValue (.record fields) with
          | .ok config => .ok config
          | .error fault => .error (.config path.toString fault)

end Config

end SignatureIndex
