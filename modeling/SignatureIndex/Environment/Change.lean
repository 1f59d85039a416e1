import SignatureIndex.Environment

/-! Changes to the file tree: new directories, files and links, and removal. -/
namespace SignatureIndex.Environment

open Text

def withNode (env : Environment) (place : Place) (node : Node) : Environment :=
  { env with
    tree := env.tree.put place node
    stands := FileTree.at?_put_of_directory node env.stands }

/-- The environment with a node put into its tree, unless that is refused. -/
def make (env : Environment) (path : Path) (place : Place) (node : Node) :
    Except Failure Environment :=
  env.unlessRefused place path (.ok (env.withNode place node))

def makeDirectory (env : Environment) (path : Path) : Except Failure Environment :=
  match env.find .name path with
  | .error failure => .error failure
  | .ok (.node _ _) => .error (.file .alreadyExists path.toString)
  | .ok (.free directory name) => env.make path (directory ++ [name]) .directory

/-- A failure to make a directory does not count if the directory is there. -/
def unlessDirectory (env : Environment) (path : Path) (failure : Failure) : Except Failure Unit :=
  match env.isDirectory path with
  | .error other => .error other
  | .ok true => .ok ()
  | .ok false => .error failure

theorem parent_parts_lt {path : Path} (h : path.parent ≠ path) :
    path.parent.parts.length < path.parts.length := by
  cases path with
  | mk start parts =>
      cases parts with
      | nil => exact absurd rfl h
      | cons part rest => simp [Path.parent]

/-- Makes a directory and those above it; one that is there already is accepted. What was made
before a failure stays. -/
def makeDirectories (env : Environment) (path : Path) : Except Failure Unit × Environment :=
  match env.makeDirectory path with
  | .ok made => (.ok (), made)
  | .error (.file .notFound text) =>
    if _h : path.parent = path then (.error (.file .notFound text), env)
    else match makeDirectories env path.parent with
      | (.error failure, above) => (.error failure, above)
      | (.ok (), above) =>
        match above.makeDirectory path with
        | .ok made => (.ok (), made)
        | .error (.file .notFound text) => (.error (.file .notFound text), above)
        | .error (.file error text) => (above.unlessDirectory path (.file error text), above)
        | .error failure => (.error failure, above)
  | .error (.file error text) => (env.unlessDirectory path (.file error text), env)
  | .error failure => (.error failure, env)
termination_by path.parts.length
decreasing_by exact parent_parts_lt (by assumption)

/-- Writes a file, over one that is there. A last link is followed. -/
def writeFile (env : Environment) (path : Path) (bytes : List UInt8) :
    Except Failure Environment :=
  match env.find .creation path with
  | .error failure => .error failure
  | .ok (.node _ .directory) => .error (.file .isDirectory path.toString)
  | .ok (.node place _) => env.make path place (.file bytes)
  | .ok (.free directory name) => env.make path (directory ++ [name]) (.file bytes)

def makeLink (env : Environment) (path : Path) (target : String) : Except Failure Environment :=
  if hasNull target then .error .nullCharacter
  else match env.find .name path with
    | .error failure => .error failure
    | .ok (.node _ _) => .error (.file .alreadyExists path.toString)
    | .ok (.free directory name) => env.make path (directory ++ [name]) (.link target)

/-- A text without the slashes at its end. A text of slashes only keeps one. -/
def withoutSlashes (text : String) : String :=
  let trimmed := String.ofList (Text.dropEndWhile (· = '/') text.toList)
  if trimmed = "" ∧ text ≠ "" then "/" else trimmed

/-- Removes the file or link at a path written as text. Nothing but a directory may have a slash
after its name, and a directory is not removed. -/
def remove (env : Environment) (text : String) : Except Failure Environment :=
  let trimmed := withoutSlashes text
  if text = "" ∨ Text.utf8Size text > FileTree.pathLimit then
    .error (.file (if text = "" then .notFound else .nameTooLong) text)
  else match env.findText .name trimmed with
    | .error (.file error _) => .error (.file error text)
    | .error failure => .error failure
    | .ok (.free _ _) => .error (.file .notFound text)
    | .ok (.node _ .directory) => .error (.file .isDirectory text)
    | .ok (.node place _) =>
      if trimmed = text then
        .ok { env with
          tree := env.tree.erase place
          stands := FileTree.at?_erase_of_directory env.stands }
      else .error (.file .notDirectory text)

end SignatureIndex.Environment
