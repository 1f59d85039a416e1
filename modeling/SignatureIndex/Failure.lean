import SignatureIndex.Archive.Fault
import SignatureIndex.Archive.Lzma
import SignatureIndex.Checked
import SignatureIndex.FileError
import SignatureIndex.Text.Quoted

/-! Failures that end an operation, as causes, and their wording. -/
namespace SignatureIndex

open Text

inductive ConfigFault where
  /-- The file is not in the expected format. -/
  | unreadable
  /-- Fields of the configuration are wrong. -/
  | complaints (complaints : List Complaint)
  /-- The skipped extensions are not a list. -/
  | extensionsNotList
  /-- The file cannot be opened or read. -/
  | unopened (error : FileError) (path : String)
  deriving DecidableEq, Repr

def ConfigFault.message : ConfigFault → String
  | unreadable => "the file is not valid TOML"
  | complaints found => "; ".intercalate (found.map Complaint.render)
  | extensionsNotList => "skip_extensions must be a list of extensions"
  | unopened error path => error.message ++ ": " ++ quotedString path

/-- The words before the path of a configuration with a fault. -/
def ConfigFault.lead : ConfigFault → String
  | unreadable => "Invalid TOML in "
  | unopened _ _ => "Cannot read "
  | _ => "Invalid config in "

inductive Failure where
  /-- The file tree refuses an access to a path. -/
  | file (error : FileError) (path : String)
  /-- A path holds a null character. -/
  | nullCharacter
  /-- A path was to be given, and a value of another kind was. -/
  | notPath (kind : String)
  /-- A path starts at the home directory of nobody known. -/
  | unknownHome
  /-- The links of a path lead back to themselves. -/
  | linkLoop (path : String)
  /-- A path does not lie below another one. -/
  | outside (path base : String)
  /-- Bytes of a text file are no UTF-8. -/
  | undecodable
  /-- A line of an export is no JSON. -/
  | unreadableRecord
  /-- A whole number in a text has too many digits. -/
  | longNumber (digits : Nat)
  /-- A list of an export lies in too many others. -/
  | deepList
  /-- A record of an export lies in too many others. -/
  | deepRecord
  /-- Files include one another, links lead through one another, or directories or settings lie in
  one another, deeper than there is room for. -/
  | stackOverflow
  /-- A record of an export is no signature. -/
  | invalidRecord (complaints : List Complaint)
  /-- A whole number of an export does not fit into a word. -/
  | integerRange
  /-- A value has too many parts in each other for an export. -/
  | exportNesting
  /-- An ignore rule comes to nothing. -/
  | emptyRule
  /-- An ignore rule is no valid pattern. -/
  | malformedRule (message : String)
  /-- A number of repetitions in an ignore rule is too large. -/
  | largeRepetition
  /-- An archive cannot be opened. -/
  | archiveOpening (path : String) (fault : ArchiveFault)
  /-- An entry of an archive cannot be read. -/
  | archiveEntry (name : String) (fault : ArchiveFault)
  /-- The place of an entry's header is too large a number for an offset. -/
  | archiveOffset
  /-- The range-coded data of an entry is broken. -/
  | archiveData (fault : Archive.Lzma.Fault)
  /-- An archive asks for a later version of the format. -/
  | archiveVersion (tenths : Nat)
  /-- The configuration of a directory is refused. -/
  | config (path : String) (fault : ConfigFault)
  deriving DecidableEq, Repr

namespace Failure

def isFile : Failure → Bool
  | file _ _ => true
  | _ => false

def isDenied : Failure → Bool
  | file (.refused .permission) _ => true
  | _ => false

/-- The wording for a whole number with too many digits. -/
def longNumberMessage (digits : Nat) : String :=
  "Exceeds the limit (4300 digits) for integer string conversion: value has " ++
    toString digits ++ " digits; use sys.set_int_max_str_digits() to increase the limit"

def message : Failure → String
  | file error path => error.message ++ ": " ++ quotedString path
  | nullCharacter => "embedded null byte"
  | notPath kind => "expected str, bytes or os.PathLike object, not " ++ kind
  | unknownHome => "Could not determine home directory."
  | linkLoop path => "Symlink loop from " ++ quotedString path
  | outside path base =>
    quotedString path ++ " is not in the subpath of " ++ quotedString base ++
      " OR one path is relative and the other is absolute."
  | undecodable => "the text is not valid UTF-8"
  | unreadableRecord => "the line is not valid JSON"
  | longNumber digits => longNumberMessage digits
  | deepList => "maximum recursion depth exceeded while decoding a JSON array from a unicode string"
  | deepRecord =>
    "maximum recursion depth exceeded while decoding a JSON object from a unicode string"
  | stackOverflow => "maximum recursion depth exceeded"
  | invalidRecord found => "; ".intercalate (found.map Complaint.render)
  | integerRange => "Integer exceeds 64-bit range"
  | exportNesting => "Recursion limit reached"
  | emptyRule => "string index out of range"
  | malformedRule message => message
  | largeRepetition => "the repetition number is too large"
  | archiveOpening path fault => "Cannot open archive " ++ path ++ ": " ++ fault.message
  | archiveEntry name fault => "Cannot read archive entry " ++ name ++ ": " ++ fault.message
  | archiveOffset => "cannot fit 'int' into an offset-sized integer"
  | archiveData fault => fault.message
  | archiveVersion tenths =>
    "zip file version " ++ toString (tenths / 10) ++ "." ++ toString (tenths % 10)
  | config path fault => fault.lead ++ path ++ ": " ++ fault.message

end Failure

end SignatureIndex
