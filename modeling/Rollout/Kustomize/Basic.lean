import Rollout.Codec.Fields
import Rollout.Kustomize.Patch
import Rollout.Manifest

/-!
# Kustomizations

The settings of a base or of an overlay: names, labels, images, generated data and
patches.
-/

namespace Rollout

/-- Another name or tag for an image. -/
structure ImageOverride where
  name : String
  newName : Option String := none
  newTag : Option String := none
deriving DecidableEq

def ImageOverride.codec : Codec ImageOverride :=
  .struct "ImageOverride" <|
    ImageOverride.mk <$> .required "name" (·.name) .text
      <*> .optional "newName" (·.newName) .text
      <*> .optional "newTag" (·.newTag) .text

/-- A ConfigMap or a Secret that kustomize generates. -/
structure DataGenerator where
  name : String
  literals : List String := []
  files : List String := []
  envs : List String := []
  behavior : Option String := none
deriving DecidableEq

namespace DataGenerator

def codec : Codec DataGenerator :=
  .struct "Generator" <|
    DataGenerator.mk <$> .required "name" (·.name) .text
      <*> .items "literals" (·.literals) .text
      <*> .items "files" (·.files) .text
      <*> .items "envs" (·.envs) .text
      <*> .optional "behavior" (·.behavior) .text

def addLiteral (g : DataGenerator) (key value : String) : DataGenerator :=
  { g with literals := g.literals ++ [key ++ "=" ++ value] }

end DataGenerator

/-- The settings of a base or of an overlay. -/
structure Kustomization where
  ns : Option String := none
  nameStart : Option String := none
  nameEnd : Option String := none
  commonLabels : Assoc String := []
  commonAnnotations : Assoc String := []
  images : List ImageOverride := []
  secretGenerators : List DataGenerator := []
  configMapGenerators : List DataGenerator := []
  patches : List Patch := []
deriving DecidableEq

namespace Kustomization

def fields : Fields Kustomization Kustomization :=
  Kustomization.mk <$> .optional "namespace" (·.ns) .text
    <*> .optional "namePrefix" (·.nameStart) .text
    <*> .optional "nameSuffix" (·.nameEnd) .text
    <*> .sortedMap "commonLabels" (·.commonLabels) .text
    <*> .sortedMap "commonAnnotations" (·.commonAnnotations) .text
    <*> .items "images" (·.images) ImageOverride.codec
    <*> .items "secretGenerators" (·.secretGenerators) DataGenerator.codec
    <*> .items "configMapGenerators" (·.configMapGenerators) DataGenerator.codec
    <*> .items "patches" (·.patches) Patch.codec

def codec : Codec Kustomization := .struct "Kustomization" fields

def withLabel (k : Kustomization) (key value : String) : Kustomization :=
  { k with commonLabels := k.commonLabels.insertSorted key value }

def withNote (k : Kustomization) (key value : String) : Kustomization :=
  { k with commonAnnotations := k.commonAnnotations.insertSorted key value }

def addImage (k : Kustomization) (i : ImageOverride) : Kustomization :=
  { k with images := k.images ++ [i] }

def addPatch (k : Kustomization) (p : Patch) : Kustomization :=
  { k with patches := k.patches ++ [p] }

/-- Set the number of replicas of a workload. -/
def withReplicas (k : Kustomization) (kind name : String) (count : Nat) : Kustomization :=
  k.addPatch (.operations (.ofKind kind name) [.replace "/spec/replicas" (.nat count)])

/-- Merge further data into a ConfigMap. -/
def withData (k : Kustomization) (name : String) (data : List (String × String)) :
    Kustomization :=
  k.addPatch (.merging (.ofKind "ConfigMap" name)
    (.mapping [("data", .textMap (Assoc.sorted data))]))

end Kustomization

/-- A variant of the base under a name. -/
structure Overlay where
  name : String
  kustomization : Kustomization := {}
deriving DecidableEq

namespace Overlay

def fields : Fields Overlay Overlay :=
  Overlay.mk <$> .required "name" (·.name) .text
    <*> .part (·.kustomization) Kustomization.fields

def codec : Codec Overlay := .mapping "Overlay" fields

def mapKustomization (o : Overlay) (f : Kustomization → Kustomization) : Overlay :=
  { o with kustomization := f o.kustomization }

end Overlay

end Rollout

/-!
### Bases and overlays

The base holds the manifests of all records; every overlay refers to it by its relative
path. Patches are files beside the kustomization that lists them.
-/

namespace Rollout.Kustomize

/-- The patches of a kustomization with the names of their files. -/
def patchFiles (k : Kustomization) : List (String × Patch) :=
  k.patches.mapIdx fun place p => (p.fileName place, p)

/-- The entry that lists a patch. -/
def patchEntry (fileName : String) (p : Patch) : Value :=
  .mapping [("path", .text fileName), ("target", PatchTarget.codec.encode p.target)]

/-- An entry that is left out if it is not given. -/
def optionEntry (key : String) (value : Option String) : Assoc Value :=
  (value.map fun s => (key, .text s)).toList

/-- An entry that is left out if its mapping is empty. -/
def mapEntry (key : String) (m : Assoc String) : Assoc Value :=
  if m.isEmpty then [] else [(key, .textMap m)]

/-- An entry that is left out if its list is empty. -/
def listEntry {α : Type} (key : String) (xs : List α) (f : α → Value) : Assoc Value :=
  if xs.isEmpty then [] else [(key, .list (xs.map f))]

/-- The document of a kustomization for some resources. -/
def document (k : Kustomization) (resources : List String) : Value :=
  .mapping <|
    [("apiVersion", .text "kustomize.config.k8s.io/v1beta1"), ("kind", .text "Kustomization")] ++
      optionEntry "namespace" k.ns ++ optionEntry "namePrefix" k.nameStart ++
      optionEntry "nameSuffix" k.nameEnd ++ mapEntry "commonLabels" k.commonLabels ++
      mapEntry "commonAnnotations" k.commonAnnotations ++ [("resources", .texts resources)] ++
      listEntry "images" k.images ImageOverride.codec.encode ++
      listEntry "configMapGenerator" k.configMapGenerators DataGenerator.codec.encode ++
      listEntry "secretGenerator" k.secretGenerators DataGenerator.codec.encode ++
      listEntry "patches" (patchFiles k) fun (name, p) => patchEntry name p

/-- The file of a kustomization and those of its patches. -/
def kustomizationFiles (k : Kustomization) (resources : List String) : List OutputFile :=
  .ofValue "kustomization.yaml" (document k resources) ::
    (patchFiles k).map fun (name, p) => .ofValue name p.document

/-- The directory of an overlay. -/
def overlayDirectory (o : Overlay) : String :=
  OutputFile.join "overlays" (Name.fileName o.name)

/-- The files of a base for records. -/
def baseFiles (base : Kustomization) (rs : List Record) : List OutputFile :=
  let documents := Manifest.documents {} rs
  (documents.map fun (name, text) => .ofText name text) ++
    kustomizationFiles base (documents.map (·.1))

/-- The files of a base for records and of its overlays. -/
def files (base : Kustomization) (overlays : List Overlay) (rs : List Record) :
    List OutputFile :=
  (baseFiles base rs).map (.under "base") ++
    overlays.flatMap fun o =>
      (kustomizationFiles o.kustomization ["../../base"]).map (.under (overlayDirectory o))

end Rollout.Kustomize
