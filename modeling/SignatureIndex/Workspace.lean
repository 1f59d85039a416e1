import SignatureIndex.Environment.Resolve
import SignatureIndex.Ignore
import SignatureIndex.Project.Lump

/-! Finding the projects in a directory: every directory below that holds a root lump which is a
real file and is not ignored. -/
namespace SignatureIndex.Workspace

open Project

def ignoreFileName : String := ".gitignore"

/-- What decides about ignored paths: the ignore file of the directory alone, or every ignore file
below it too. -/
inductive Filter where
  | nothing
  | single (matcher : Ignore.Matcher)
  | nested (matchers : List Ignore.Matcher)

def Filter.ignores (env : Environment) (filter : Filter) (path : Path) : Except Failure Bool :=
  match filter with
  | nothing => .ok false
  | single matcher => matcher.ignores env path
  | nested matchers => Ignore.anyIgnores env path matchers

/-- What a search came to: the paths it found, and the failure that ended it, if one did. -/
structure Sweep where
  paths : List Path
  stop : Option Failure

namespace Sweep

/-- A search that failed before it found anything. A directory that may not be listed is passed
over. -/
def ofFailure (failure : Failure) : Sweep :=
  ⟨[], if failure.isDenied then none else some failure⟩

/-- The search goes on with another one, unless it failed. -/
def append (first : Sweep) (second : Sweep) : Sweep :=
  match first.stop with
  | some _ => first
  | none => ⟨first.paths ++ second.paths, second.stop⟩

end Sweep

/-- Whether a name of a directory stands for a directory itself. -/
def entersName (env : Environment) (place : Place) (name : String) : Bool :=
  env.tree.at? (place ++ [name]) = some .directory

/-- What a choice finds in some directories, one after the other. -/
def chooseFrom (choose : Path → Sweep) : List Path → Sweep
  | [] => ⟨[], none⟩
  | directory :: rest => (choose directory).append (chooseFrom choose rest)

/-- A directory and the directories below it, each before those inside of it. Links are not
entered. There is room for so many directories inside of one another. -/
def directories (env : Environment) : Nat → Path → Sweep
  | 0, _ => ⟨[], some .stackOverflow⟩
  | room + 1, directory =>
    Sweep.append ⟨[directory], none⟩ <| match env.listed directory with
      | .error failure => .ofFailure failure
      | .ok place =>
        chooseFrom (directories env room)
          (((env.tree.namesAt place).filter (entersName env place)).map fun name =>
            directory.below [name])

/-- What a choice finds in a directory and the directories below it, of which so many may lie in one
another. -/
def search (env : Environment) (room : Nat) (choose : Path → Sweep) (directory : Path) : Sweep :=
  match env.isDirectory directory with
  | .error failure => ⟨[], some failure⟩
  | .ok false => ⟨[], none⟩
  | .ok true =>
    let found := directories env (room + 1) directory
    (chooseFrom choose found.paths).append ⟨[], found.stop⟩

def entries (env : Environment) (directory : Path) : Sweep :=
  match env.names directory with
  | .error failure => .ofFailure failure
  | .ok names => ⟨names.map fun name => directory.below [name], none⟩

/-- The ignore file of a directory, if there is one. -/
def ignoreFile (env : Environment) (directory : Path) : Sweep :=
  let path := directory.child ignoreFileName
  match env.isPresent path with
  | .error failure => .ofFailure failure
  | .ok present => ⟨if present then [path] else [], none⟩

/-- The text of a path as seen from a directory. -/
def relativeText (directory path : Path) : String :=
  ((path.relativeTo? directory).getD path).toString

/-- Paths in order of their text as seen from a directory, each once. -/
def sortBelow (directory : Path) (paths : List Path) : List Path :=
  paths.eraseDups.mergeSort fun a b =>
    decide (relativeText directory a ≤ relativeText directory b)

/-- The ignore files in a directory and below it. -/
def ignoreFiles (env : Environment) (directory : Path) : Except Failure (List Path) :=
  let found := search env env.stack.ignoreFiles (ignoreFile env) directory
  match found.stop with
  | some failure => .error failure
  | none =>
    (filterM? env.isFile (directory.child ignoreFileName :: found.paths)).map (sortBelow directory)

def readIgnoreFiles (env : Environment) : List Path → Except Failure (List Ignore.Matcher)
  | [] => .ok []
  | path :: rest =>
    match Ignore.readFile env path with
    | .error failure => .error failure
    | .ok matcher => (readIgnoreFiles env rest).map (matcher :: ·)

def filterOf (env : Environment) (directory : Path) (nested : Bool) : Except Failure Filter :=
  if nested then
    match ignoreFiles env directory with
    | .error failure => .error failure
    | .ok paths => (readIgnoreFiles env paths).map .nested
  else
    let path := directory.child ignoreFileName
    match env.isFile path with
    | .error failure => .error failure
    | .ok false => .ok .nothing
    | .ok true => (Ignore.readFile env path).map .single

/-- Whether the real form of a path lies below that of a directory. -/
def isWithin (env : Environment) (path directory : Path) : Except Failure Bool :=
  match env.resolve directory with
  | .error failure => if failure.isFile then .ok false else .error failure
  | .ok realDirectory =>
    match env.resolve path with
    | .error failure => if failure.isFile then .ok false else .error failure
    | .ok realPath => .ok (realPath.relativeTo? realDirectory).isSome

/-- Whether a path is a root lump that counts: a file that is no link, inside the directory, and
not ignored. -/
def includesLump (env : Environment) (directory : Path) (ignores : Path → Except Failure Bool)
    (path : Path) : Except Failure Bool := do
  if !(← env.isFile path) then return false
  if ← env.isLink path then return false
  if !(← isWithin env path directory) then return false
  if !isRootLump path.name then return false
  return !(← ignores path)

/-- The project roots in a directory and below it, in order, where some paths are ignored. Every
path is tested as soon as it is found. -/
def rootsUnless (env : Environment) (directory : Path) (ignores : Path → Except Failure Bool) :
    Except Failure (List Path) := do
  let found := search env env.stack.directories (entries env) directory
  let lumps ← filterM? (includesLump env directory ignores) found.paths
  match found.stop with
  | some failure => .error failure
  | none => return sortBelow directory (lumps.map Path.parent)

/-- The project roots in a directory and below it, in order. -/
def projectRoots (env : Environment) (directory : Path) (nested : Bool) :
    Except Failure (List Path) := do
  let filter ← filterOf env directory nested
  rootsUnless env directory (filter.ignores env)

end SignatureIndex.Workspace
