import Rollout.Label
import Rollout.Output

/-!
# Manifests

Records as YAML documents that can be applied one after the other: each is stamped with
the standard labels, put into a namespace if its kind needs one, written once, and
comes after those it may refer to.
-/

namespace Rollout

/-- How manifests are laid out in files. -/
inductive Layout where
  /-- One file for each record. -/
  | perRecord
  /-- One file for all of them. -/
  | single (fileName : String)
deriving DecidableEq

/-- The settings of manifests. -/
structure ManifestOptions where
  layout : Layout := .perRecord
  /-- Whether labels and annotations tell the kind of component and the generator. -/
  standardLabels : Bool := true
  /-- Whether a list of all files for kustomize is added. -/
  kustomization : Bool := false
deriving DecidableEq

namespace Manifest

/-- What stands between two documents. -/
def separator : String := "---\n"

/-- Give a record the standard labels and annotations that it lacks. -/
def stamp (r : Record) : Record :=
  let component := Kind.component r.kind
  (((r.insertLabel Label.managedBy Generator.name).insertLabel Label.component component).annotate
    Label.generatedBy Generator.name).annotate Label.generatorVersion Generator.version

/-- Put a record that needs a namespace and has none into the default one. -/
def fillNamespace (r : Record) : Record :=
  if Kind.isClusterScoped r.kind || r.namespace?.isSome then r
  else r.setNamespace defaultNamespace

/-- A record as it is applied. -/
def completed (o : ManifestOptions) (r : Record) : Record :=
  fillNamespace (if o.standardLabels then stamp r else r)

/-- The records to apply: completed, each once, in the order of application. -/
def prepare (o : ManifestOptions) (rs : List Record) : List Record :=
  Record.sortForApply (Record.distinct (rs.map (completed o)))

/-- The documents of records, each with the name of its file. -/
def documents (o : ManifestOptions) (rs : List Record) : List (String × String) :=
  let prepared := prepare o rs
  (Record.fileNames prepared).zip (prepared.map fun r => Yaml.text r.toValue)

/-- All documents as one text. -/
def combined (o : ManifestOptions) (rs : List Record) : String :=
  separator.intercalate ((documents o rs).map (·.2))

/-- The files that hold the documents. -/
def documentFiles (o : ManifestOptions) (rs : List Record) : List OutputFile :=
  match o.layout with
  | .perRecord => (documents o rs).map fun (name, text) => .ofText name text
  | .single name => [.ofText name (combined o rs)]

/-- The list of all files for kustomize. -/
def fileList (names : List String) : Value :=
  .mapping [("apiVersion", .text "kustomize.config.k8s.io/v1beta1"),
    ("kind", .text "Kustomization"), ("resources", .texts names)]

/-- The files for records. -/
def files (o : ManifestOptions) (rs : List Record) : List OutputFile :=
  let documents := documentFiles o rs
  documents ++
    if o.kustomization then
      [.ofValue "kustomization.yaml" (fileList (documents.map (·.path)))]
    else []

end Manifest

end Rollout
