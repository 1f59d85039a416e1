import SignatureIndex.Archive
import SignatureIndex.Value

/-! Selections of archive entries as values of any kind. A value of a wrong kind is refused only
where an entry is held against it: the directory first, then the extensions if the entry lies below
the directory. -/
namespace SignatureIndex.Archive

inductive SelectionFault where
  /-- The name of an entry is no text. -/
  | name (kind : String)
  /-- The directory is no text. -/
  | directory (kind : String)
  /-- The extensions are no list. -/
  | extensions (kind : String)
  /-- One of the extensions is no text. -/
  | extension (kind : String)
  deriving DecidableEq, Repr

def SelectionFault.message : SelectionFault → String
  | name kind => "'" ++ kind ++ "' object has no attribute 'replace'"
  | directory kind => "'" ++ kind ++ "' object has no attribute 'lower'"
  | extensions kind => "'" ++ kind ++ "' object is not iterable"
  | extension kind => "'" ++ kind ++ "' object has no attribute 'lower'"

def directoryOf : Value → Except SelectionFault String
  | .text s => .ok s
  | other => .error (.directory other.kindName)

def extensionsIn : List Value → Except SelectionFault (List String)
  | [] => .ok []
  | .text s :: rest => (extensionsIn rest).map (s :: ·)
  | other :: _ => .error (.extension other.kindName)

/-- The extensions that a value lists. The parts of a text are its characters, those of a record
its names. -/
def extensionsOf : Value → Except SelectionFault (List String)
  | .list items => extensionsIn items
  | .text s => .ok (s.toList.map String.singleton)
  | .record fields => .ok (fields.map Prod.fst)
  | other => .error (.extensions other.kindName)

structure Criteria where
  directory : Value
  extensions : Value

def Criteria.includes (criteria : Criteria) : Value → Except SelectionFault Bool
  | .text name => do
    let directory ← directoryOf criteria.directory
    if !(Selection.mk directory []).includes name then return false
    let extensions ← extensionsOf criteria.extensions
    return (Selection.mk directory extensions).includes name
  | other => .error (.name other.kindName)

/-- The selection that criteria stand for. The entries are held against the criteria in order. -/
def Criteria.selection (criteria : Criteria) (archive : Archive) :
    Except SelectionFault Selection := do
  (archive.headers.filter (!·.isDirectory)).forM fun header => do
    let _ ← criteria.includes (.text header.name)
  match directoryOf criteria.directory, extensionsOf criteria.extensions with
  | .ok directory, .ok extensions => return ⟨directory, extensions⟩
  | .ok directory, .error _ => return ⟨directory, []⟩
  | .error _, _ => return ⟨"", []⟩

end SignatureIndex.Archive
