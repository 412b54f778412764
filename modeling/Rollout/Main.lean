import Rollout.Command.Run

/-!
# The command line

Reads the files of the working directory, does what the arguments ask for, prints what is
to be printed and writes the files that have changed.
-/

namespace Rollout.Main

/-- Read a file or directory into a tree. `place` is the path of the directory it is in. -/
partial def readEntry (place : String) (tree : FileTree) (e : IO.FS.DirEntry) : IO FileTree := do
  let path := OutputFile.join place e.fileName
  if ← e.path.isDir then
    let mut tree := (tree.makeDirectory path).toOption.getD tree
    for inner in ← e.path.readDir do
      tree ← readEntry path tree inner
    return tree
  else
    let content ← IO.FS.readBinFile e.path
    return (tree.write path content.toList).toOption.getD tree

/-- Read the working directory. -/
def readTree : IO FileTree := do
  let mut tree := FileTree.empty
  for e in ← (← IO.currentDir).readDir do
    tree ← readEntry "" tree e
  return tree

/-- Write the files of a tree that another one does not have like that. -/
def writeChanges (old new : FileTree) : IO Unit := do
  for (path, content) in new.filesBelow [] do
    if (old.read path).toOption != some content then
      if let some (directory, _) := Text.cutLast '/' path then
        IO.FS.createDirAll directory
      IO.FS.writeBinFile path ⟨content.toArray⟩

/-- The variables of the environment that options look at. -/
def readEnvironment : IO (Assoc String) := do
  let names := (Command.forms.flatMap (·.options)).filterMap (·.variableName)
  names.filterMapM fun name => return (← IO.getEnv name).map (name, ·)

end Rollout.Main

open Rollout in
def main (arguments : List String) : IO UInt32 := do
  let tree ← Main.readTree
  let session : Session := { tree, outcome := Session.plainOutcomes, manifests := "manifests" }
  let (result, after) := session.run (← Main.readEnvironment) arguments
  Main.writeChanges tree after.tree
  IO.print after.printed
  if let .error e := result then IO.eprintln e.message
  return UInt32.ofNat (exitCode result)
