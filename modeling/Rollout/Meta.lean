import Rollout.Codec.Fields
import Rollout.Label
import Rollout.Name

/-!
# Names and labels of what is defined

Everything that is defined has a name, lives in a namespace and carries labels and
annotations. The labels given in a definition are laid over those that every generated
record has.
-/

namespace Rollout

/-- The namespace of all that is given none. -/
def defaultNamespace : String := "default"

/-- The name, namespace, labels and annotations of something that is defined. -/
structure Meta where
  name : String
  ns : String := defaultNamespace
  labels : Assoc String := []
  annotations : Assoc String := []
deriving DecidableEq

namespace Meta

/-- The fields of a definition that make up its metadata. -/
def fields : Fields Meta Meta :=
  Meta.mk <$> .required "name" (·.name) .text
    <*> .defaulted "namespace" (·.ns) .text defaultNamespace
    <*> .sortedMap "labels" (·.labels) .text
    <*> .sortedMap "annotations" (·.annotations) .text

/-- Put it into a namespace. -/
def withNamespace (m : Meta) (ns : String) : Meta := { m with ns }

/-- Give it a label. -/
def withLabel (m : Meta) (key value : String) : Meta :=
  { m with labels := m.labels.insertSorted key value }

/-- Give it a further entry among its annotations. -/
def withNote (m : Meta) (key value : String) : Meta :=
  { m with annotations := m.annotations.insertSorted key value }

/-- The labels of its records: those of the generator under those of the definition. -/
def allLabels (m : Meta) : Assoc String :=
  m.labels.foldl (fun all (k, v) => all.insertSorted k v)
    (Assoc.sorted [(Label.name, m.name), (Label.managedBy, Generator.name)])

/-- The labels by which its pods are found. -/
def selector (m : Meta) : Assoc String := [(Label.app, m.name)]

/-- The metadata of one of its records. -/
def toValueNamed (m : Meta) (name : String) (namespaced : Bool) : Value :=
  .mapping <|
    [("name", .text name)] ++ (if namespaced then [("namespace", .text m.ns)] else []) ++
      [("labels", .textMap m.allLabels)] ++
      if m.annotations.isEmpty then [] else [("annotations", .textMap m.annotations)]

/-- The metadata of the record that has its own name. -/
def toValue (m : Meta) (namespaced : Bool) : Value := m.toValueNamed m.name namespaced

/-- What is wrong with its name and namespace. -/
def problems (m : Meta) (what : String) : List String :=
  let name := m.name
  let ns := m.ns
  Name.problems what name Name.maxLabelLength ++
    if Name.isValidLabel ns then [] else [s!"{what} '{name}' has invalid namespace '{ns}'"]

end Meta

end Rollout
