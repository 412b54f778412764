import Rollout.Workload.Container

/-!
# What stands beside the main container of a pod

Volumes, storage that outlives the pod, metrics, and the containers that accompany the
main one.
-/

namespace Rollout

/-- Where the content of a volume comes from. -/
inductive VolumeSource where
  | emptyDir
  | hostPath (path : String)
  | claim (claim : String)
deriving DecidableEq

namespace VolumeSource

def variants : List (Variant VolumeSource) :=
  [ .alone "emptyDir" emptyDir (· == emptyDir),
    .ofFields "hostPath" "HostPath" (fun | hostPath path => some path | _ => none)
      (hostPath <$> .required "path" id .text),
    .ofFields "claim" "Claim" (fun | claim name => some name | _ => none)
      (claim <$> .required "claim" id .text) ]

def entry : VolumeSource → String × Value
  | emptyDir => ("emptyDir", .empty)
  | hostPath path => ("hostPath", .mapping [("path", .text path)])
  | claim name => ("persistentVolumeClaim", .mapping [("claimName", .text name)])

end VolumeSource

/-- A volume of a pod, mounted into the main container. -/
structure Volume where
  name : String
  mountPath : String
  source : VolumeSource
  readOnly : Bool := false
deriving DecidableEq

namespace Volume

def codec : Codec Volume :=
  .mapping "Volume" <|
    Volume.mk <$> .required "name" (·.name) .text
      <*> .required "mountPath" (·.mountPath) .text
      <*> .taggedPart (·.source) "type" VolumeSource.variants
      <*> .defaulted "readOnly" (·.readOnly) .bool false

end Volume

/-- Storage that outlives the pods that use it. -/
structure Storage where
  name : String
  mountPath : String
  size : String
  storageClass : Option String := none
  accessModes : List String := ["ReadWriteOnce"]
deriving DecidableEq

namespace Storage

def codec : Codec Storage :=
  .struct "Storage" <|
    Storage.mk <$> .required "name" (·.name) .text
      <*> .required "mountPath" (·.mountPath) .text
      <*> .required "size" (·.size) .text
      <*> .optional "storageClass" (·.storageClass) .text
      <*> .defaulted "accessModes" (·.accessModes) (.list .text) ["ReadWriteOnce"]

def withClass (s : Storage) (name : String) : Storage := { s with storageClass := some name }

/-- What a claim for the storage asks for. -/
def claimSpec (s : Storage) : Value :=
  .mapping <|
    [("accessModes", .texts s.accessModes),
      ("resources", .mapping [("requests", .mapping [("storage", .text s.size)])])] ++
      optionEntry "storageClassName" s.storageClass .text

end Storage

/-- Where metrics are served. -/
structure Metrics where
  port : Nat
  path : String := "/metrics"
  /-- Whether a monitor of the Service is generated. -/
  serviceMonitor : Bool := false
deriving DecidableEq

namespace Metrics

def codec : Codec Metrics :=
  .struct "Metrics" <|
    Metrics.mk <$> .required "port" (·.port) .nat16
      <*> .defaulted "path" (·.path) .text "/metrics"
      <*> .defaulted "serviceMonitor" (·.serviceMonitor) .bool false

end Metrics

/-- A container that runs beside the main one or, if it prepares the pod, before it. -/
structure Companion where
  name : String
  image : String
  command : List String := []
  args : List String := []
  env : Assoc String := []
  ports : List Nat := []
  /-- Volumes of the pod by name, and where they are mounted. -/
  mounts : Assoc String := []
  requirements : Option Requirements := none
  /-- Whether it runs to its end before the main container starts. -/
  isInit : Bool := false
deriving DecidableEq

namespace Companion

def codec : Codec Companion :=
  .struct "Companion" <|
    Companion.mk <$> .required "name" (·.name) .text
      <*> .required "image" (·.image) .text
      <*> .items "command" (·.command) .text
      <*> .items "args" (·.args) .text
      <*> .orderedMap "env" (·.env) .text
      <*> .items "ports" (·.ports) .nat16
      <*> .sortedMap "mounts" (·.mounts) .text
      <*> .optional "resources" (·.requirements) Requirements.codec
      <*> .defaulted "init" (·.isInit) .bool false

def sidecar (name image : String) : Companion := { name, image }

def init (name image : String) : Companion := { name, image, isInit := true }

def withCommand (c : Companion) (command : List String) : Companion := { c with command }

def withVariable (c : Companion) (key value : String) : Companion :=
  { c with env := c.env.insert key value }

def withPort (c : Companion) (port : Nat) : Companion := { c with ports := c.ports ++ [port] }

def withMount (c : Companion) (volume path : String) : Companion :=
  { c with mounts := c.mounts.insertSorted volume path }

/-- The container in a record. -/
def toValue (c : Companion) : Value :=
  .mapping <|
    [("name", .text c.name), ("image", .text c.image)] ++ textsEntry "command" c.command ++
      textsEntry "args" c.args ++
      listEntry "ports" (c.ports.map fun p =>
        .mapping [("containerPort", .nat p), ("protocol", .text "TCP")]) ++
      environmentEntry c.env ++
      optionEntry "resources" c.requirements Requirements.toValue ++
      listEntry "volumeMounts" (c.mounts.map fun (volume, path) =>
        .mapping [("name", .text volume), ("mountPath", .text path)])

end Companion

end Rollout
