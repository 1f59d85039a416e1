import SignatureIndex.Environment.Change
import SignatureIndex.Json.Reader
import SignatureIndex.Json.Writer
import SignatureIndex.Signature.Record
import SignatureIndex.Signature.Table

/-! Exports: one record to a line, signatures in order of their keys. Two exports of the same table
are equal byte by byte. -/
namespace SignatureIndex.Export

open Text

def fileName : String := "signatures.jsonl"

/-- How many lists and records may lie in each other in an export. -/
def nestingLimit : Nat := 254

/-- The line of a record, with its fields in order. -/
def line (record : Value) : Except Json.Unwritable (List Char) :=
  let sorted := Json.sortFields record
  match Json.unwritable? nestingLimit sorted with
  | none => .ok (Json.write sorted ++ ['\n'])
  | some reason => .error reason

/-- The lines of records up to the first one that has none, and the reason against that one. -/
def linesOf : List Value → List Char × Option Json.Unwritable
  | [] => ([], none)
  | record :: rest =>
    match line record with
    | .error reason => ([], some reason)
    | .ok text =>
      let (others, reason) := linesOf rest
      (text ++ others, reason)

/-- The signatures of a table in the order of an export. -/
def sorted (table : Table) : List Signature :=
  table.signatures.mergeSort fun a b => decide (a.key ≤ b.key)

/-- The text of a table's export, and what ends it early. -/
def textOf (table : Table) : List Char × Option Json.Unwritable :=
  linesOf ((sorted table).map Signature.toValue)

/-- The file that an export goes to: the path itself, or a file in the directory there. -/
def target (env : Environment) (path : Path) : Except Failure Path :=
  (env.isDirectory path).map fun isDirectory => if isDirectory then path.child fileName else path

/-- The failure that a reason against a record comes to. -/
def writeFailure : Json.Unwritable → Failure
  | .integerRange => .integerRange
  | .nesting => .exportNesting

/-- Writes records to a file. A record without a line ends the file before it. -/
def writeRecords (env : Environment) (path : Path) (records : List Value) :
    Except Failure Unit × Environment :=
  let (text, reason) := linesOf records
  match env.writeFile path (encodeUtf8 text) with
  | .error failure => (.error failure, env)
  | .ok written =>
    match reason with
    | none => (.ok (), written)
    | some reason => (.error (writeFailure reason), written)

/-- Writes a table; gives the number of records and the environment, which may have changed even if
the export fails. Directories on the way are made. -/
def write (env : Environment) (path : Path) (table : Table) : Except Failure Nat × Environment :=
  match target env path with
  | .error failure => (.error failure, env)
  | .ok file =>
    match env.makeDirectories file.parent with
    | (.error failure, prepared) => (.error failure, prepared)
    | (.ok (), prepared) =>
      let records := (sorted table).map Signature.toValue
      match writeRecords prepared file records with
      | (.error failure, final) => (.error failure, final)
      | (.ok (), final) => (.ok records.length, final)

def readLimits : Json.Limits := ⟨4300, 988⟩

/-- The failure that a fault in a line comes to. -/
def readFailure : Json.Fault → Failure
  | .malformed => .unreadableRecord
  | .longNumber digits => .longNumber digits
  | .deepList => .deepList
  | .deepRecord => .deepRecord

/-- The records in lines: one to a line, blank lines and values other than records left out. -/
def recordsIn : List (List Char) → Except Failure (List Value)
  | [] => .ok []
  | line :: rest =>
    match trim line with
    | [] => recordsIn rest
    | text =>
      match Json.read readLimits text with
      | .error fault => .error (readFailure fault)
      | .ok (.record fields) => (recordsIn rest).map (.record fields :: ·)
      | .ok _ => recordsIn rest

/-- Reads the records of a file. Lines before ill-formed bytes are read first. -/
def readRecords (env : Environment) (path : Path) : Except Failure (List Value) :=
  match env.readLines path with
  | .error failure => .error failure
  | .ok read =>
    match recordsIn read.lines with
    | .error failure => .error failure
    | .ok records => if read.intact then .ok records else .error .undecodable

/-- The signatures that records stand for; the first one that is none is refused. -/
def signaturesOf : List Value → Except Failure (List Signature)
  | [] => .ok []
  | record :: rest =>
    match (Signature.ofValue record).toExcept with
    | .error complaints => .error (.invalidRecord complaints)
    | .ok signature => (signaturesOf rest).map (signature :: ·)

def read (env : Environment) (path : Path) : Except Failure (List Signature) :=
  match readRecords env path with
  | .error failure => .error failure
  | .ok records => signaturesOf records

end SignatureIndex.Export
