import Rollout.Bytes.Basic
import Rollout.Text.Split

/-!
# File trees

The files and directories below a working directory, as a value. Paths are texts that
are followed from there, step by step: a name leads into a directory, a dot stays and two
dots lead back out, also out of the working directory itself.
-/

namespace Rollout

/-- Why a path cannot be read or written. -/
inductive FileFault where
  | notFound
  | notDirectory
  | isDirectory
deriving DecidableEq

/-- The words of the system for a fault. -/
def FileFault.message : FileFault → String
  | notFound => "No such file or directory (os error 2)"
  | notDirectory => "Not a directory (os error 20)"
  | isDirectory => "Is a directory (os error 21)"

/-- What stands at a place of a tree. -/
inductive Entry where
  | file (content : Bytes)
  | directory
deriving DecidableEq

/-- A place in a tree: the names that lead there. -/
abbrev Place := List String

/-- The files and directories below a working directory. -/
structure FileTree where
  entries : List (Place × Entry)
deriving DecidableEq

namespace FileTree

/-- The tree without files. -/
def empty : FileTree := ⟨[]⟩

instance : Inhabited FileTree := ⟨empty⟩

/-- Whether a place is the working directory or one that it lies in. -/
def isOuter (place : Place) : Bool := place.all (· == "..")

/-- The place that two dots lead to. -/
def outOf (place : Place) : Place := if isOuter place then place ++ [".."] else place.dropLast

/-- What stands at a place. The working directory and those that it lies in are always
there; of what else they hold nothing is known. -/
def at? (tree : FileTree) (place : Place) : Option Entry :=
  if isOuter place then some .directory else tree.entries.lookup place

/-- Whether a place is a directory. -/
def isDirectoryAt (tree : FileTree) (place : Place) : Bool :=
  match tree.at? place with
  | some .directory => true
  | _ => false

/-- Put an entry at a place, in the stead of what stood there. -/
def put (tree : FileTree) (place : Place) (entry : Entry) : FileTree :=
  ⟨tree.entries.filter (·.1 != place) ++ [(place, entry)]⟩

/-- The steps that the text of a path consists of. -/
def steps (path : String) : List String := Text.parts '/' path

/-- Follow the steps of a path from a place. -/
def follow (tree : FileTree) : Place → List String → Except FileFault Place
  | place, [] => .ok place
  | place, step :: steps =>
    match tree.at? place with
    | none => .error .notFound
    | some (.file _) => .error .notDirectory
    | some .directory =>
      if step.isEmpty || step == "." then follow tree place steps
      else if step == ".." then follow tree (outOf place) steps
      else follow tree (place ++ [step]) steps

/-- The place that a path leads to, whether or not something stands there. -/
def locate (tree : FileTree) (path : String) : Except FileFault Place :=
  if path.isEmpty || Text.startsWith path "/" then .error .notFound
  else tree.follow [] (steps path)

/-- The content of the file that a path leads to. -/
def read (tree : FileTree) (path : String) : Except FileFault Bytes := do
  match tree.at? (← tree.locate path) with
  | some (.file content) => .ok content
  | some .directory => .error .isDirectory
  | none => .error .notFound

/-- Whether a path leads to a directory. -/
def isDirectory (tree : FileTree) (path : String) : Bool :=
  match tree.locate path with
  | .ok place => tree.isDirectoryAt place
  | .error _ => false

/-- Whether a path leads to a file or a directory. -/
def pathExists (tree : FileTree) (path : String) : Bool :=
  match tree.locate path with
  | .ok place => (tree.at? place).isSome
  | .error _ => false

/-- The files directly inside the directory at a path, in the order of their names. -/
def filesIn (tree : FileTree) (path : String) : List (String × Bytes) :=
  match tree.locate path with
  | .error _ => []
  | .ok place =>
    let inside := tree.entries.filterMap fun (p, entry) =>
      match entry, p.getLast? with
      | .file content, some name => if p.dropLast = place then some (name, content) else none
      | _, _ => none
    inside.mergeSort fun a b => a.1 ≤ b.1

/-- Follow steps from a place and make the directories that are missing. -/
def makeSteps (tree : FileTree) : Place → List String → Except FileFault (FileTree × Place)
  | place, [] => .ok (tree, place)
  | place, step :: steps =>
    if step.isEmpty || step == "." then makeSteps tree place steps
    else if step == ".." then makeSteps tree (outOf place) steps
    else
      let next := place ++ [step]
      match tree.at? next with
      | some .directory => makeSteps tree next steps
      | some (.file _) => .error .notDirectory
      | none => makeSteps (tree.put next .directory) next steps

/-- Make the directory at a path, and all that lead to it. -/
def makeDirectory (tree : FileTree) (path : String) : Except FileFault FileTree :=
  if Text.startsWith path "/" then .error .notFound
  else (tree.makeSteps [] (steps path)).map (·.1)

/-- Write a file where a path leads, and make the directories on the way. -/
def write (tree : FileTree) (path : String) (content : Bytes) : Except FileFault FileTree := do
  if Text.startsWith path "/" then .error .notFound
  else
    let all := steps path
    let (tree, place) ← tree.makeSteps [] all.dropLast
    let place ← tree.follow place (all.getLast?.toList)
    match tree.at? place with
    | some .directory => .error .isDirectory
    | _ => .ok (tree.put place (.file content))

/-- Take away the file that a path leads to. -/
def remove (tree : FileTree) (path : String) : FileTree :=
  match tree.locate path with
  | .ok place => ⟨tree.entries.filter (·.1 != place)⟩
  | .error _ => tree

/-- All files at and below a place, by the path from there, in the order of the paths. -/
def filesBelow (tree : FileTree) (place : Place) : List (String × Bytes) :=
  let below := tree.entries.filterMap fun (p, entry) =>
    match entry with
    | .file content =>
      if place.isPrefixOf p then some ("/".intercalate (p.drop place.length), content) else none
    | .directory => none
  below.mergeSort fun a b => a.1 ≤ b.1

/-- The last name in a path. A path that ends in two dots or has no name has none. -/
def lastName? (path : String) : Option String :=
  match (steps path).reverse.find? fun s => !s.isEmpty && s != "." with
  | some ".." | none => none
  | some name => some name

end FileTree

end Rollout
