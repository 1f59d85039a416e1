import SignatureIndex.Archive.Entry
import SignatureIndex.Environment
import SignatureIndex.Log
import SignatureIndex.Source.Script
import SignatureIndex.Text.Lowercase

/-! Archives with scripts: opening one, and reading its script entries one by one. -/
namespace SignatureIndex

open Text

/-- An opened archive: its bytes and its directory, in order. -/
structure Archive where
  path : Path
  bytes : List UInt8
  headers : List Archive.Header

namespace Archive

/-- Which entries are scripts: those below a directory that have none of some extensions. -/
structure Selection where
  directory : String
  skippedExtensions : List String

/-- Whether a name belongs to a script. Case and the direction of slashes do not count. -/
def Selection.includes (selection : Selection) (name : String) : Bool :=
  let lowered := lower (replaceChar '\\' '/' name.toList)
  let skipped := selection.skippedExtensions.map fun extension => lower extension.toList
  startsWith (lower selection.directory.toList ++ ['/']) lowered &&
    !skipped.contains (Path.ofString (String.ofList lowered)).suffix.toList

def channel : String := "scan.archive"

def ofFile (env : Environment) (path : Path) : Except Failure Archive :=
  match env.readBytes path with
  | .error (.file error text) => .error (.archiveOpening path.toString (.file error text))
  | .error failure => .error failure
  | .ok bytes => (readDirectory path.toString bytes).map fun headers => ⟨path, bytes, headers⟩

def openedLine (archive : Archive) : LogLine :=
  ⟨.debug, channel,
    "Found " ++ toString archive.headers.length ++ " entries in " ++ archive.path.toString⟩

/-- What is logged for an entry that is no script. -/
def skippedLine (name : String) : LogLine :=
  ⟨.debug, channel, "Skipped non-script entry: " ++ name⟩

inductive Visit where
  | skipped (name : String)
  | script (script : Source.Script)
  | failed (failure : Failure)

/-- Goes through entries: directories are passed over, and an entry that cannot be read ends
it. -/
def visitsOf (bytes : List UInt8) (selection : Selection) : List Header → List Visit
  | [] => []
  | header :: rest =>
    if header.isDirectory then visitsOf bytes selection rest
    else if !selection.includes header.name then
      .skipped header.name :: visitsOf bytes selection rest
    else match readEntryText bytes header with
      | .error failure => [.failed failure]
      | .ok text => .script ⟨header.name, text⟩ :: visitsOf bytes selection rest

def visits (archive : Archive) (selection : Selection) : List Visit :=
  visitsOf archive.bytes selection archive.headers

/-- All scripts of an archive, or the failure to read one. -/
def scripts (archive : Archive) (selection : Selection) :
    Except Failure (List Source.Script) :=
  (archive.visits selection).foldlM (fun found visit =>
    match visit with
    | .skipped _ => .ok found
    | .script script => .ok (found ++ [script])
    | .failed failure => .error failure) []

end Archive

end SignatureIndex
