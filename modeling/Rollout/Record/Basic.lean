import Rollout.Value.Path

/-!
# Records

A record describes one object of a cluster: a mapping that should hold `apiVersion`,
`kind` and, under `metadata`, a `name`. Everything else in it is carried along as it is.
-/

namespace Rollout

/-- What tells one record from another. -/
structure Identity where
  kind : String
  name : String
  namespaceName : Option String
deriving DecidableEq

/-- The text of an identity. -/
def Identity.text (id : Identity) : String :=
  match id.namespaceName with
  | some ns => s!"{ns}/{id.kind}/{id.name}"
  | none => s!"{id.kind}/{id.name}"

/-- The description of one object of a cluster. -/
structure Record where
  fields : Assoc Value
deriving DecidableEq

namespace Record

instance : Inhabited Record := ⟨⟨[]⟩⟩

/-- A record from a value. Only a mapping has fields. -/
def ofValue (v : Value) : Record := ⟨v.entries⟩

/-- A record as a value. -/
def toValue (r : Record) : Value := .mapping r.fields

/-- The record of a kind with a name. -/
def make (apiVersion kind name : String) : Record :=
  ⟨[("apiVersion", .text apiVersion), ("kind", .text kind),
    ("metadata", .mapping [("name", .text name)])]⟩

/-- A field of the record. -/
def field? (r : Record) (key : String) : Option Value := r.fields.get? key

/-- The value at a dotted path. -/
def get? (r : Record) (path : String) : Option Value := r.toValue.get? path

/-- Give a field a value. -/
def set (r : Record) (key : String) (v : Value) : Record := ⟨r.fields.insert key v⟩

/-- The metadata, if it is a mapping. -/
def metadata? (r : Record) : Option (Assoc Value) := (r.field? "metadata").bind Value.entries?

/-- The entries of the metadata. -/
def metadata (r : Record) : Assoc Value := r.metadata?.getD []

/-- Change the metadata. Whatever else stands in their place is given up. -/
def mapMetadata (r : Record) (f : Assoc Value → Assoc Value) : Record :=
  r.set "metadata" (.mapping (f r.metadata))

def apiVersion? (r : Record) : Option String := (r.field? "apiVersion").bind Value.text?

def kind? (r : Record) : Option String := (r.field? "kind").bind Value.text?

def name? (r : Record) : Option String := (r.metadata.get? "name").bind Value.text?

def namespace? (r : Record) : Option String := (r.metadata.get? "namespace").bind Value.text?

/-- The kind, empty if there is none. -/
def kind (r : Record) : String := r.kind?.getD ""

/-- The name, empty if there is none. -/
def name (r : Record) : String := r.name?.getD ""

/-- The texts of a mapping inside the metadata, sorted by key. Other values are skipped. -/
def metadataTexts (r : Record) (key : String) : Assoc String :=
  let entries := ((r.metadata.get? key).map Value.entries).getD []
  Assoc.sorted (entries.filterMap fun (k, v) => v.text?.map (k, ·))

def labels (r : Record) : Assoc String := r.metadataTexts "labels"

def annotations (r : Record) : Assoc String := r.metadataTexts "annotations"

/-- Put the record into a namespace. -/
def setNamespace (r : Record) (ns : String) : Record :=
  r.mapMetadata (·.insert "namespace" (.text ns))

/-- Give a key of a mapping inside the metadata a text unless it has a value. Whatever
else stands in the place of that mapping is given up. -/
def insertMetadataText (r : Record) (field key value : String) : Record :=
  r.mapMetadata fun metadata =>
    let entries := ((metadata.get? field).map Value.entries).getD []
    metadata.insert field (.mapping (entries.insertNew key (.text value)))

/-- Give the record a label unless it has it. -/
def insertLabel (r : Record) (key value : String) : Record :=
  r.insertMetadataText "labels" key value

/-- Give the record a further annotation unless it has it. -/
def annotate (r : Record) (key value : String) : Record :=
  r.insertMetadataText "annotations" key value

/-- The identity of a record: its kind, name and namespace. -/
def identity (r : Record) : Identity := ⟨r.kind, r.name, r.namespace?⟩

/-- The required fields that are missing or empty. -/
def missingFields (r : Record) : List String :=
  [("apiVersion", r.apiVersion?), ("kind", r.kind?), ("metadata.name", r.name?)].filterMap
    fun (field, value) => if value.all (·.isEmpty) then some field else none

end Record

end Rollout
