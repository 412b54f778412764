import Rollout.Record.Order
import Rollout.Workload.Basic

/-!
# Pod templates

The pod that runs a workload, and the records of the configuration attached to it.
Records that others were nested in move into its namespace unless they were given one
of their own.
-/

namespace Rollout.Workload

/-- Where the storage of a pod comes from. -/
inductive StorageMode where
  /-- From claims with names of their own. -/
  | claims
  /-- From claim templates; the pod only mounts them. -/
  | claimTemplates
deriving DecidableEq

/-- The name of the volume for a mounted ConfigMap. -/
def configVolumeName (c : ConfigMap) : String := "config-" ++ c.info.name

/-- The name of the volume for a mounted Secret. -/
def secretVolumeName (s : Secret) : String := "secret-" ++ s.info.name

/-- The ports of the main container. -/
def portValues (w : Workload) : List Value :=
  w.ports.mapIdx fun i p =>
    .mapping [("name", .text (p.nameAt i)), ("containerPort", .nat p.container),
      ("protocol", .text p.protocol.name)]

/-- The attached configuration whose entries become variables. -/
def environmentSources (w : Workload) : List Value :=
  ((w.configMaps.filter (·.mountPath.isNone)).map fun c =>
    .mapping [("configMapRef", .mapping [("name", .text c.info.name)])]) ++
  (w.secrets.filter (·.mountPath.isNone)).map fun s =>
    .mapping [("secretRef", .mapping [("name", .text s.info.name)])]

/-- A mount of a volume. -/
def mountValue (name path : String) (readOnly : Bool) : Value :=
  .mapping ([("name", .text name), ("mountPath", .text path)] ++
    if readOnly then [("readOnly", .bool true)] else [])

/-- The mounts of the main container. -/
def volumeMounts (w : Workload) : List Value :=
  (w.configMaps.filterMap fun c =>
    c.mountPath.map fun path => mountValue (configVolumeName c) path true) ++
  (w.secrets.filterMap fun s =>
    s.mountPath.map fun path => mountValue (secretVolumeName s) path true) ++
  (w.volumes.map fun v => mountValue v.name v.mountPath v.readOnly) ++
  w.storage.map fun s => mountValue s.name s.mountPath false

/-- The main container. -/
def container (w : Workload) : Value :=
  .mapping <|
    [("name", .text w.name), ("image", .text w.imageOrDefault)] ++
      optionEntry "imagePullPolicy" w.imagePullPolicy .text ++
      textsEntry "command" w.command ++ textsEntry "args" w.args ++
      listEntry "ports" w.portValues ++ environmentEntry w.env ++
      listEntry "envFrom" w.environmentSources ++
      optionEntry "resources" w.requirements Requirements.toValue ++
      optionEntry "livenessProbe" w.liveness Probe.toValue ++
      optionEntry "readinessProbe" w.readiness Probe.toValue ++
      listEntry "volumeMounts" w.volumeMounts

/-- The volumes of the pod. -/
def podVolumes (w : Workload) (mode : StorageMode) : List Value :=
  ((w.configMaps.filter (·.mountPath.isSome)).map fun c =>
    .mapping [("name", .text (configVolumeName c)),
      ("configMap", .mapping [("name", .text c.info.name)])]) ++
  ((w.secrets.filter (·.mountPath.isSome)).map fun s =>
    .mapping [("name", .text (secretVolumeName s)),
      ("secret", .mapping [("secretName", .text s.info.name)])]) ++
  (w.volumes.map fun v => .mapping [("name", .text v.name), v.source.entry]) ++
  match mode with
  | .claims => w.storage.map fun s =>
      .mapping [("name", .text s.name),
        ("persistentVolumeClaim", .mapping [("claimName", .text (w.claimName s))])]
  | .claimTemplates => []

/-- The labels of the pod. -/
def podLabels (w : Workload) : Assoc String :=
  w.info.selector.foldl (fun all (k, v) => all.insertSorted k v) w.info.allLabels

/-- The annotations of the pod: the given ones, and those by which metrics are found. -/
def podNotes (w : Workload) (extra : Assoc String) : Assoc String :=
  match w.metrics with
  | none => extra
  | some m =>
    extra.insertSorted Label.scrape "true" |>.insertSorted Label.scrapePort (toString m.port)
      |>.insertSorted Label.scrapePath m.path

/-- The template of the pod. -/
def podTemplate (w : Workload) (mode : StorageMode) (extra : Assoc String) : Value :=
  let notes := w.podNotes extra
  let (inits, sidecars) := w.companions.partition (·.isInit)
  .mapping
    [("metadata", .mapping <|
        [("labels", .textMap w.podLabels)] ++
          if notes.isEmpty then [] else [("annotations", .textMap notes)]),
      ("spec", .mapping <|
        optionEntry "serviceAccountName" w.serviceAccount .text ++
          listEntry "initContainers" (inits.map Companion.toValue) ++
          [("containers", .list (w.container :: sidecars.map Companion.toValue))] ++
          listEntry "volumes" (w.podVolumes mode) ++
          if w.nodeSelector.isEmpty then [] else [("nodeSelector", .textMap w.nodeSelector)])]

/-- Move a nested record into a namespace, unless it was given one of its own or lives in
none. -/
def adoptRecord (ns : String) (r : Record) : Record :=
  if Kind.isClusterScoped r.kind then r
  else
    match r.namespace? with
    | none => r.setNamespace ns
    | some own => if own = defaultNamespace then r.setNamespace ns else r

/-- Move nested records into the namespace of the workload. -/
def adopt (w : Workload) (rs : List Record) : List Record :=
  if w.info.ns = defaultNamespace then rs else rs.map (adoptRecord w.info.ns)

/-- The records of the attached configuration. -/
def configRecords (files : FileTree) (w : Workload) : Except SourceError (List Record) := do
  let maps ← w.configMaps.mapM (ConfigMap.records files)
  let secrets ← w.secrets.mapM (Secret.records files)
  .ok (w.adopt (maps.flatten ++ secrets.flatten))

/-- The bytes that are digested for the checksums of all attached ConfigMaps. -/
def digestInput (checksums : List String) : Bytes := checksums.flatMap Bytes.ofText

/-- The checksum of all attached ConfigMaps, if there are any. -/
def configChecksum (files : FileTree) (w : Workload) : Except SourceError (Option String) :=
  if w.configMaps.isEmpty then .ok none
  else do
    let checksums ← w.configMaps.mapM (ConfigMap.checksum files)
    .ok (some (Bytes.Sha256.hex (digestInput checksums)))

/-- The annotations of pods that tell the checksum of their configuration. -/
def checksumNotes (files : FileTree) (w : Workload) : Except SourceError (Assoc String) := do
  match ← w.configChecksum files with
  | some checksum => .ok [(Label.configChecksum, checksum)]
  | none => .ok []

end Rollout.Workload
