import SignatureIndex.Environment
import SignatureIndex.Text.CaseFold
import SignatureIndex.Text.Lowercase

/-! The files of a project: its root lumps, and the file that an include directive names. -/
namespace SignatureIndex.Project

open Text

/-- The name of a root lump, apart from an extension. -/
def lumpName : String := "zscript"

/-- Whether a file name is that of a root lump, in any case and with any extension. -/
def isRootLump (name : String) : Bool :=
  let lowered := lower name.toList
  lowered = lumpName.toList || startsWith (lumpName.toList ++ ['.']) lowered

/-- Names in order of their code points. -/
def sortNames (names : List String) : List String :=
  names.mergeSort fun a b => decide (a ≤ b)

/-- Keeps the items that pass a test which may fail. -/
def filterM? {α : Type} (test : α → Except Failure Bool) : List α → Except Failure (List α)
  | [] => .ok []
  | item :: rest =>
    match test item with
    | .error failure => .error failure
    | .ok keep =>
      match filterM? test rest with
      | .error failure => .error failure
      | .ok kept => .ok (if keep then item :: kept else kept)

/-- The root lumps in a directory, by name. A directory that cannot be listed has none. -/
def rootLumps (env : Environment) (directory : Path) : Except Failure (List Path) :=
  match env.names directory with
  | .error failure => if failure.isFile then .ok [] else .error failure
  | .ok names =>
    filterM? env.isFile (((sortNames names).filter isRootLump).map directory.child)

/-- The first name, in order, that is equal to a part up to case. -/
def matchName? (part : String) (names : List String) : Option String :=
  (sortNames (names.filter fun name => foldString name = foldString part)).head?

/-- Goes from a directory along parts. A part that is not there exactly is looked for without
regard to case. -/
def walk (env : Environment) (current : Path) : List String → Except Failure (Option Path)
  | [] => .ok (some current)
  | part :: rest =>
    if part = ".." then walk env current.parent rest
    else
      let candidate := current.child part
      match env.isPresent candidate with
      | .error failure => .error failure
      | .ok true => walk env candidate rest
      | .ok false =>
        match env.names current with
        | .error failure => if failure.isFile then .ok none else .error failure
        | .ok names =>
          match matchName? part names with
          | none => .ok none
          | some name => walk env (current.child name) rest

/-- The file that a relative path names below a directory. -/
def fileBelow? (env : Environment) (base : Path) (relative : String) :
    Except Failure (Option Path) :=
  match walk env base (Path.partsOf relative.toList) with
  | .error failure => .error failure
  | .ok none => .ok none
  | .ok (some found) =>
    match env.isFile found with
    | .error failure => .error failure
    | .ok isFile => .ok (if isFile then some found else none)

/-- The file that an include directive names: below the project's root, else below the directory
of the including file. -/
def resolveInclude (env : Environment) (root including : Path) (target : String) :
    Except Failure (Option Path) :=
  match fileBelow? env root target with
  | .error failure => .error failure
  | .ok (some found) => .ok (some found)
  | .ok none => fileBelow? env including.parent target

end SignatureIndex.Project
