import Rollout.Failure
import Rollout.FileTree
import Rollout.Record.Order
import Rollout.Yaml.Printer

/-!
# Output files

What a renderer makes is a list of files, each with its path below the directory that it
is written to. Files for records are named after kind and name; where two records share
both, the namespace of the later one tells them apart.
-/

namespace Rollout

/-- A file to be written: its path from the output directory, and its content. -/
structure OutputFile where
  path : String
  content : Bytes
deriving DecidableEq

namespace OutputFile

/-- A file of text. -/
def ofText (path text : String) : OutputFile := ⟨path, Bytes.ofText text⟩

/-- A file with a value as YAML. -/
def ofValue (path : String) (v : Value) : OutputFile := ofText path (Yaml.text v)

/-- A path that continues below a directory. A path from the root stays what it is. -/
def join (dir path : String) : String :=
  if dir.isEmpty || Text.startsWith path "/" then path
  else if Text.endsWith dir "/" then dir ++ path
  else dir ++ "/" ++ path

/-- Move a file below a directory. -/
def under (dir : String) (f : OutputFile) : OutputFile := { f with path := join dir f.path }

end OutputFile

namespace Record

/-- The kind in lower case, for file names. -/
def lowerKind (r : Record) : String := (r.kind?.getD "unknown").toLower

/-- The name, for file names. -/
def nameInFile (r : Record) : String := Name.fileName (r.name?.getD "unnamed")

/-- The name of the file for a record. -/
def fileName (r : Record) : String := r.lowerKind ++ "-" ++ r.nameInFile ++ ".yaml"

/-- The name of the file for a record whose plain name is taken. -/
def longFileName (r : Record) : String :=
  let ns := Name.fileName (r.namespace?.getD "cluster")
  r.lowerKind ++ "-" ++ ns ++ "-" ++ r.nameInFile ++ ".yaml"

/-- The names of the files for records, given the names that are taken. -/
def fileNamesFrom (taken : List String) : List Record → List String
  | [] => []
  | r :: rs =>
    let name := if taken.contains r.fileName then r.longFileName else r.fileName
    name :: fileNamesFrom (name :: taken) rs

/-- The names of the files for records. -/
def fileNames (rs : List Record) : List String := fileNamesFrom [] rs

end Record

/-- Operations that write files. The files written before a failure stay. -/
abbrev Writing := ExceptT Failure (StateM FileTree)

namespace Writing

/-- Write a file below a directory. -/
def file (dir : String) (f : OutputFile) : Writing Unit := do
  let path := OutputFile.join dir f.path
  match (← get).write path f.content with
  | .ok tree => set tree
  | .error fault => throw (.unwritable path fault)

/-- Write files below a directory, and tell their paths. -/
def files (dir : String) (fs : List OutputFile) : Writing (List String) := do
  for f in fs do file dir f
  return fs.map (·.path)

end Writing

end Rollout
