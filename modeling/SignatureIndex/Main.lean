import SignatureIndex.CommandLine

/-! The program. It loads the working directory, and whatever else the arguments name, into a file
tree, runs the command on it, writes back the files that the command made, and prints. -/
namespace SignatureIndex.Program

/-- Loads an entry of a directory and everything below it into a tree. Links lead to the real form
of their targets. -/
partial def loadEntry (tree : FileTree) (place : Place) (entry : IO.FS.DirEntry) :
    IO FileTree := do
  let kind ← try pure (some (← entry.path.symlinkMetadata).type) catch _ => pure none
  match kind with
  | some .dir =>
    let mut loaded := tree.put place .directory
    for inner in (← entry.path.readDir) do
      loaded ← loadEntry loaded (place ++ [inner.fileName]) inner
    return loaded
  | some .file =>
    let bytes ← IO.FS.readBinFile entry.path
    return tree.put place (.file bytes.toList)
  | some .symlink =>
    let target ← try pure (← IO.FS.realPath entry.path).toString catch _ => pure entry.fileName
    return tree.put place (.link target)
  | _ => return tree

/-- The tree with the directories above a place, and the place itself. -/
def withDirectories (tree : FileTree) (place : Place) : FileTree :=
  (List.range' 1 place.length).foldl (fun tree count => tree.put (place.take count) .directory) tree

/-- Loads what a text names, if it names anything. -/
def loadNamed (tree : FileTree) (text : String) : IO FileTree := do
  try
    let path ← IO.FS.realPath text
    let place := (Path.ofString path.toString).parts
    if place ≠ [] ∧ (tree.at? place).isSome then return tree
    if ← path.isDir then
      let mut loaded := withDirectories tree place
      for entry in (← path.readDir) do
        loaded ← loadEntry loaded (place ++ [entry.fileName]) entry
      return loaded
    let bytes ← IO.FS.readBinFile path
    return (withDirectories tree place.dropLast).put place (.file bytes.toList)
  catch _ => return tree

def archiveVariable : String := "ZSCRIPT_GZDOOM_PK3_PATH"

def loadEnvironment (words : List String) : IO Environment := do
  let working := (Path.ofString (← IO.currentDir).toString).parts
  let archive ← IO.getEnv archiveVariable
  let home ← IO.getEnv "HOME"
  let mut tree := FileTree.empty
  for text in "." :: (archive.toList ++ words) do
    tree ← loadNamed tree text
  if stands : tree.at? working = some .directory then
    return { tree, working, home, archive, stands }
  throw (IO.userError "the working directory cannot be read")

/-- Writes back the directories and files that a run changed. -/
def writeChanges (before after : Environment) : IO Unit := do
  for (place, node) in after.tree.nodes do
    if before.tree.at? place ≠ some node then
      let path := (Path.mk .slash place).toString
      match node with
      | .directory => IO.FS.createDirAll path
      | .file bytes => IO.FS.writeBinFile path (ByteArray.mk bytes.toArray)
      | .link _ => pure ()

def print (verbose : Bool) (emissions : List CommandLine.Emission) : IO Unit := do
  for emission in emissions do
    IO.print emission.outText
    IO.eprint (emission.errText verbose)

end SignatureIndex.Program

open SignatureIndex in
def main (words : List String) : IO UInt32 := do
  match CommandLine.Arguments.read words with
  | .error (.help _) =>
    IO.print CommandLine.usageText
    return 0
  | .error (.usage program fault) =>
    IO.eprintln (CommandLine.usageLine program fault)
    return 2
  | .ok arguments =>
    let env ← Program.loadEnvironment words
    let run := CommandLine.run env arguments
    Program.writeChanges env run.env
    Program.print arguments.verbose run.emissions
    match run.exit with
    | .ok code => return code.toUInt32
    | .error failure =>
      IO.eprintln failure.message
      return 1
