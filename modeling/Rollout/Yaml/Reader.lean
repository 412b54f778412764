import Rollout.Codec.Shape
import Rollout.Text.Split
import Rollout.Value.Basic
import Rollout.Yaml.Node
import Rollout.Yaml.Scalar

/-!
# Reading YAML

A text is read as one value, as whatever shape is expected of it. Aliases are replaced by
what they stand for. Lists and mappings nest at most 128 deep, and there is a limit to how
often aliases are followed, so that a short text does not stand for a value too large.
-/

namespace Rollout.Yaml

namespace Node

mutual

/-- How many signs a node consists of. -/
def size : Node → Nat
  | .scalar .. | .alias _ => 1
  | .list _ items => sizeOfItems items + 2
  | .mapping _ entries => sizeOfEntries entries + 2

def sizeOfItems : List Node → Nat
  | [] => 0
  | n :: ns => size n + sizeOfItems ns

def sizeOfEntries : List (Node × Node) → Nat
  | [] => 0
  | (k, v) :: rest => size k + size v + sizeOfEntries rest

end

end Node

namespace Document

/-- How deep lists and mappings may nest. -/
def maxDepth : Nat := 128

/-- How many aliases may be followed for each sign of a document. -/
def aliasesPerSign : Nat := 100

/-- Steps of reading values. The state is how many aliases may still be followed. -/
abbrev Expanding := StateT Nat Option

/-- The full tags of scalars. -/
def coreTag (name : String) : String := "tag:yaml.org,2002:" ++ name

/-- Whether a tag is of a type that only a program knows. -/
def isLocal (tag : Option String) : Bool := tag.any (Text.startsWith · "!")

/-- The value of an integer that fits 64 bits. -/
def integer? (n : Int) : Option Value :=
  if minInt64 ≤ n ∧ n ≤ maxUInt64 then some (.int n) else none

/-- The value that an unquoted text stands for. A number that is not finite has none and
stands for null. -/
def plainValue? (text : String) : Option Value :=
  match resolve text.toList with
  | .null => some .null
  | .bool b => some (.bool b)
  | .int n => integer? n
  | .double x => some (.double x)
  | .nonFinite => some .null
  | .text => some (.text text)

/-- The value that a text stands for by its tag. -/
def taggedValue? (tag text : String) : Option Value :=
  let cs := text.toList
  if tag = coreTag "bool" then (bool? cs).map .bool
  else if tag = coreTag "int" then (int? cs).bind integer?
  else if tag = coreTag "float" then
    if isNonFinite cs then some .null else (double? cs).map .double
  else if tag = coreTag "null" then if isNull cs then some .null else none
  else if isLocal tag then none
  else some (.text text)

/-- The value of a scalar. -/
def scalarValue? (shape : Shape) (tag : Option String) (text : String) (isPlain : Bool) :
    Option Value :=
  let isAbsent := isPlain && text.isEmpty
  let other : Option Value :=
    match shape.core with
    | .text => some (.text text)
    | .list _ => if isAbsent then some (.list []) else some (.text text)
    | .map _ | .struct .. => if isAbsent then some .empty else some (.text text)
    | _ =>
      match tag with
      | some tag => taggedValue? tag text
      | none => if isPlain then plainValue? text else some (.text text)
  if shape.isOption && isPlain then
    match tag with
    | none => if isNull text.toList then some .null else other
    | some tag =>
      if tag = coreTag "null" then if isNull text.toList then some .null else none
      else other
  else other

/-- The node that an alias stands for, and any other node itself. -/
def followed (d : Document) (n : Node) : Expanding Node := do
  match n with
  | .alias number =>
    match ← get, d.anchored.lookup number with
    | left + 1, some n =>
      set left
      return n
    | _, _ => failure
  | n => return n

/-- The text of a key. -/
def keyText (d : Document) (n : Node) : Expanding String := do
  match ← d.followed n with
  | .scalar _ text _ => return text
  | _ => failure

/-- Add an entry. A field of a structure is given once; another key keeps its last value. -/
def addEntry (shape : Shape) (entries : Assoc Value) (key : String) (v : Value) :
    Option (Assoc Value) :=
  if shape.isField key && Assoc.has entries key then none else some (Assoc.insert entries key v)

/-- The value of a node. `depth` lists and mappings may still be opened. -/
def valueOf (d : Document) (depth : Nat) (shape : Shape) (n : Node) : Expanding Value := do
  let core := shape.core
  let isMarked (tag : Option String) : Bool :=
    match core with
    | .any => isLocal tag
    | .text => true
    | _ => false
  match ← d.followed n, depth with
  | .scalar tag text isPlain, _ => liftM (scalarValue? shape tag text isPlain)
  | .list tag items, depth + 1 =>
    if isMarked tag then failure
    else
      let vs ← items.zipIdx.mapM fun (item, place) => valueOf d depth (core.item place) item
      return .list vs
  | .mapping tag entries, depth + 1 =>
    if isMarked tag then failure
    else
      let all ← entries.foldlM (fun all (k, v) => do
        let key ← d.keyText k
        match core.field? key with
        | some s => liftM (addEntry core all key (← valueOf d depth s v))
        | none => liftM (addEntry core all key .null)) []
      return .mapping all
  | _, _ => failure

/-- The value of a document. -/
def value? (d : Document) (shape : Shape) : Option Value :=
  match d.root with
  | some n => (d.valueOf maxDepth shape n).run' (aliasesPerSign * n.size)
  | none => scalarValue? shape none "" true

end Document

/-- The value of the shape that a text describes. -/
def parseAs? (shape : Shape) (s : String) : Option Value :=
  (Document.ofText? s).bind (·.value? shape)

/-- The value that a text describes. -/
def parse? (s : String) : Option Value := parseAs? .any s

end Rollout.Yaml
