import SignatureIndex.FileTree
import SignatureIndex.Text.Lines

/-! Where the program runs: a file tree, a working directory in it, the home directories, the
variable that may name an archive, and the room that is left on the stack. Tests on a path answer no
where nothing can be there; other accesses fail. -/
namespace SignatureIndex

open Text

/-- How deep the program can go before its stack is used up. That depends on what called it, and the
few calls between one use and another are not counted. -/
structure Stack where
  /-- How many links may be followed inside of one another. -/
  links : Nat := 985
  /-- How many files may include one another, one inside of the other. -/
  includes : Nat := 980
  /-- How many directories may lie in one another below one that is searched for projects. -/
  directories : Nat := 985
  /-- How many may below one that is searched for ignore files. -/
  ignoreFiles : Nat := 981
  /-- The room for the lists and tables of a configuration that lie in one another. -/
  settings : Nat := 990

/-- The surroundings of a run. -/
structure Environment where
  tree : FileTree
  working : Place
  home : Option String := none
  accounts : List (String × String) := []
  archive : Option String := none
  stack : Stack := {}
  /-- The working directory is there. -/
  stands : tree.at? working = some .directory

namespace Environment

/-- The working directory as a path. -/
def workingPath (env : Environment) : Path :=
  .ofString ("/" ++ "/".intercalate env.working)

@[irreducible] def findText (env : Environment) (ending : FileTree.Ending) (text : String) :
    Except Failure FileTree.Found :=
  if hasNull text then .error .nullCharacter
  else match env.tree.find env.working ending text with
    | .ok found => .ok found
    | .error error => .error (.file error text)

def find (env : Environment) (ending : FileTree.Ending) (path : Path) :
    Except Failure FileTree.Found :=
  env.findText ending path.toString

/-- Errors that mean that nothing is at a path. -/
def meansAbsent : Failure → Bool
  | .file .notFound _ => true
  | .file .notDirectory _ => true
  | .file .tooManyLinks _ => true
  | .nullCharacter => true
  | _ => false

/-- Whether something that satisfies a test is at a path. -/
def holds (env : Environment) (ending : FileTree.Ending) (test : Node → Bool) (path : Path) :
    Except Failure Bool :=
  match env.find ending path with
  | .ok (.node _ node) => .ok (test node)
  | .ok (.free _ _) => .ok false
  | .error failure => if meansAbsent failure then .ok false else .error failure

def isPresent (env : Environment) (path : Path) : Except Failure Bool :=
  env.holds .target (fun _ => true) path

def isFile (env : Environment) (path : Path) : Except Failure Bool :=
  env.holds .target (fun node => match node with
    | .file _ => true
    | _ => false) path

def isDirectory (env : Environment) (path : Path) : Except Failure Bool :=
  env.holds .target (· = .directory) path

/-- Whether the last name of a path is a link. -/
def isLink (env : Environment) (path : Path) : Except Failure Bool :=
  env.holds .name (fun node => match node with
    | .link _ => true
    | _ => false) path

/-- What the use of a place gives, unless it is refused. -/
def unlessRefused {α : Type} (env : Environment) (place : Place) (path : Path)
    (result : Except Failure α) : Except Failure α :=
  match env.tree.refusal .content place with
  | some refusal => .error (.file (.refused refusal) path.toString)
  | none => result

/-- The place of a directory whose names can be listed. -/
def listed (env : Environment) (path : Path) : Except Failure Place :=
  match env.find .target path with
  | .error failure => .error failure
  | .ok (.free _ _) => .error (.file .notFound path.toString)
  | .ok (.node place .directory) => env.unlessRefused place path (.ok place)
  | .ok (.node _ _) => .error (.file .notDirectory path.toString)

def names (env : Environment) (path : Path) : Except Failure (List String) :=
  (env.listed path).map env.tree.namesAt

def readBytes (env : Environment) (path : Path) : Except Failure (List UInt8) :=
  match env.find .target path with
  | .error failure => .error failure
  | .ok (.free _ _) => .error (.file .notFound path.toString)
  | .ok (.node place (.file bytes)) => env.unlessRefused place path (.ok bytes)
  | .ok (.node place _) => env.unlessRefused place path (.error (.file .isDirectory path.toString))

/-- The text of a script file: ill-formed bytes are replaced and line ends unified. -/
def readScript (env : Environment) (path : Path) : Except Failure String :=
  (env.readBytes path).map fun bytes => String.ofList (unifyNewlines (decodeReplacing bytes))

def readLines (env : Environment) (path : Path) : Except Failure Lines :=
  (env.readBytes path).map Lines.ofBytes

/-- The home directory of an account; the empty name stands for the current one. -/
def homeOf? (env : Environment) (account : String) : Option String :=
  if account = "" then env.home else env.accounts.lookup account

/-- A home directory without slashes at its end. -/
def trimHome (home : String) : String :=
  let trimmed := String.ofList (dropEndWhile (· = '/') home.toList)
  if trimmed = "" then "/" else trimmed

/-- Replaces a first part that starts with a tilde by the home directory it names. -/
def expandHome (env : Environment) (path : Path) : Except Failure Path :=
  match path with
  | ⟨.relative, first :: rest⟩ =>
    match first.toList with
    | '~' :: account =>
      if hasNull first then .error .nullCharacter
      else match env.homeOf? (String.ofList account) with
        | none => .error .unknownHome
        | some home =>
          if home.toList.head? = some '~' then .error .unknownHome
          else
            let base := Path.ofString (trimHome home)
            .ok ⟨base.start, base.parts ++ rest⟩
    | _ => .ok path
  | _ => .ok path

end Environment

end SignatureIndex
