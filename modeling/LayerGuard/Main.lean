import LayerGuard.Command

/-! # The program

Reads the files that a command looks at into a tree, runs the command on the tree, and carries out
what the outcome says. A command is run twice: the first run is for the clock, and the second one
tells the time that the first one took.
-/

namespace LayerGuard.Main

/-- The names that lead from the root to an absolute path. -/
def location (path : String) : Location := (Text.split '/' path).filter (· != "")

/-- The tree with the file at a path of the file system. -/
def addFile (tree : FileTree) (path : String) : IO FileTree := do
  let bytes ← IO.FS.readBinFile path
  return tree.addFileAt (location path) bytes.toList

/-- The tree with a folder of the file system and everything in it. -/
partial def addFolder (tree : FileTree) (path : String) : IO FileTree := do
  let folder ← IO.FS.realPath path
  let mut tree := tree.addFolderAt (location path)
  for entry in ← folder.readDir do
    if ← entry.path.isDir then tree ← addFolder tree entry.path.toString
    else tree ← addFile tree entry.path.toString
  return tree

/-- The tree with whatever stands at a path of the file system. -/
def add (tree : FileTree) (path : Path) : IO FileTree := do
  try
    let found ← IO.FS.realPath path.text
    if ← found.isDir then addFolder tree found.toString else addFile tree found.toString
  catch _ => return tree

def lookedAt : Command → List Path
  | .validate source config? _ =>
    source :: (config?.map fun path => [path]).getD (Config.usualFiles.map fun file => ⟨file⟩)
  | .selfValidate _ => [Command.ownSource]
  | .init _ => [⟨Command.configFile⟩]

/-- The files and folders that the arguments lead to. -/
def snapshot (arguments : List String) : IO FileTree := do
  let workingDirectory ← IO.currentDir
  let tree := FileTree.empty (location workingDirectory.toString)
  match Command.parse arguments with
  | .ok command => (lookedAt command).foldlM add tree
  | .error _ => return tree

/-- Writes the files that a run has changed. -/
def store (before after : FileTree) : IO Unit :=
  for (location, bytes) in after.files do
    if before.fileAt? location != some bytes then
      IO.FS.writeBinFile ("/" ++ Text.join "/" location) ⟨bytes.toArray⟩

end LayerGuard.Main

def main (arguments : List String) : IO UInt32 := do
  let tree ← LayerGuard.Main.snapshot arguments
  let started ← IO.monoMsNow
  let _ ← IO.lazyPure fun _ => LayerGuard.Command.runArguments tree arguments
  let ended ← IO.monoMsNow
  let outcome := LayerGuard.Command.runArguments tree arguments (.ofNatClamp (ended - started))
  LayerGuard.Main.store tree outcome.tree
  IO.print outcome.output
  if let some error := outcome.error? then
    IO.eprint ("Error: " ++ error.report)
  else if outcome.exitCode == 2 then
    IO.eprint LayerGuard.Command.usageText
  return outcome.exitCode
