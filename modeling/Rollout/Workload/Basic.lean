import Rollout.Config.ConfigMap
import Rollout.Config.Secret
import Rollout.Text.Split
import Rollout.Workload.Pod

/-!
# Workloads

The main container of an application and the pod around it: image, ports, environment,
attached configuration, probes, companions, volumes and storage. Stateless and stateful
applications share this description.
-/

/-!
### Images

An image is named by a repository and a tag, `registry:5000/app:1.2`. A digest may
follow after `@`; a colon before the last slash belongs to the registry.
-/

namespace Rollout.Image

/-- The image that runs where none is given. -/
def fallback : String := "nginx:latest"

/-- The repository and the tag of an image. A digest is left out. -/
def split (image : String) : String × Option String :=
  let image :=
    match Text.cutAt '@' image with
    | some (before, _) => before
    | none => image
  match Text.cutLast ':' image with
  | some (repository, tag) =>
    if tag.toList.contains '/' then (image, none) else (repository, some tag)
  | none => (image, none)

end Rollout.Image

/-! ### Descriptions -/

namespace Rollout

/-- How compose builds an image from a local directory. -/
structure BuildContext where
  context : String
  dockerfile : Option String := none
  args : Assoc String := []
deriving DecidableEq

def BuildContext.codec : Codec BuildContext :=
  .struct "BuildContext" <|
    BuildContext.mk <$> .required "context" (·.context) .text
      <*> .optional "dockerfile" (·.dockerfile) .text
      <*> .orderedMap "args" (·.args) .text

/-- The main container of an application and the pod around it. -/
structure Workload where
  info : Meta
  image : Option String := none
  build : Option BuildContext := none
  imagePullPolicy : Option String := none
  command : List String := []
  args : List String := []
  ports : List Port := []
  env : Assoc String := []
  secrets : List Secret := []
  configMaps : List ConfigMap := []
  requirements : Option Requirements := none
  liveness : Option Probe := none
  readiness : Option Probe := none
  companions : List Companion := []
  volumes : List Volume := []
  storage : List Storage := []
  /-- Services that must be healthy before this one starts. -/
  dependsOn : List String := []
  /-- Services that this one talks to. -/
  connectsTo : List String := []
  metrics : Option Metrics := none
  serviceAccount : Option String := none
  nodeSelector : Assoc String := []
  /-- When compose starts the container again. -/
  restart : Option String := none

namespace Workload

/-- A workload without settings. -/
def named (name : String) : Workload := { info := { name } }

/-- The fields of a definition that make up its workload. -/
def fields : Fields Workload Workload :=
  Workload.mk <$> .part (·.info) Meta.fields
    <*> .optional "image" (·.image) .text
    <*> .optional "build" (·.build) BuildContext.codec
    <*> .optional "imagePullPolicy" (·.imagePullPolicy) .text
    <*> .items "command" (·.command) .text
    <*> .items "args" (·.args) .text
    <*> .items "ports" (·.ports) Port.codec
    <*> .orderedMap "env" (·.env) .text
    <*> .items "secrets" (·.secrets) Secret.codec
    <*> .items "configMaps" (·.configMaps) ConfigMap.codec
    <*> .optional "resources" (·.requirements) Requirements.codec
    <*> .optional "liveness" (·.liveness) Probe.codec
    <*> .optional "readiness" (·.readiness) Probe.codec
    <*> .items "companions" (·.companions) Companion.codec
    <*> .items "volumes" (·.volumes) Volume.codec
    <*> .items "storage" (·.storage) Storage.codec
    <*> .items "dependsOn" (·.dependsOn) .text
    <*> .items "connectsTo" (·.connectsTo) .text
    <*> .optional "metrics" (·.metrics) Metrics.codec
    <*> .optional "serviceAccount" (·.serviceAccount) .text
    <*> .sortedMap "nodeSelector" (·.nodeSelector) .text
    <*> .optional "restart" (·.restart) .text

def name (w : Workload) : String := w.info.name

/-- The image to run. -/
def imageOrDefault (w : Workload) : String := w.image.getD Image.fallback

/-- The port that the first port of a Service leads to. -/
def primaryPort (w : Workload) : Option Nat := w.ports.head?.map (·.container)

/-- The name of the claim for storage of a stateless application. -/
def claimName (w : Workload) (s : Storage) : String := w.name ++ "-" ++ s.name

/-! ### Setting it up -/

def mapInfo (w : Workload) (f : Meta → Meta) : Workload := { w with info := f w.info }

def withImage (w : Workload) (image : String) : Workload := { w with image := some image }

/-- Build the image from a directory. -/
def withBuild (w : Workload) (context : String) : Workload := { w with build := some { context } }

/-- Name the file by which the image is built, if it is built. -/
def withDockerfile (w : Workload) (file : String) : Workload :=
  { w with build := w.build.map fun b => { b with dockerfile := some file } }

/-- Give an argument to the build of the image, if it is built. -/
def withBuildArg (w : Workload) (key value : String) : Workload :=
  { w with build := w.build.map fun b => { b with args := b.args.insert key value } }

def withImagePullPolicy (w : Workload) (policy : String) : Workload :=
  { w with imagePullPolicy := some policy }

def withCommand (w : Workload) (command : List String) : Workload := { w with command }

def withArgs (w : Workload) (args : List String) : Workload := { w with args }

def addPort (w : Workload) (port : Port) : Workload := { w with ports := w.ports ++ [port] }

def withPort (w : Workload) (container : Nat) : Workload := w.addPort { container }

def withPortMapping (w : Workload) (host container : Nat) : Workload :=
  w.addPort { container, host := some host }

def withNamedPort (w : Workload) (name : String) (container : Nat) : Workload :=
  w.addPort { container, name := some name }

def withVariable (w : Workload) (key value : String) : Workload :=
  { w with env := w.env.insert key value }

def addSecret (w : Workload) (s : Secret) : Workload := { w with secrets := w.secrets ++ [s] }

def addConfigMap (w : Workload) (c : ConfigMap) : Workload :=
  { w with configMaps := w.configMaps ++ [c] }

def withRequirements (w : Workload) (r : Requirements) : Workload :=
  { w with requirements := some r }

def withLiveness (w : Workload) (p : Probe) : Workload := { w with liveness := some p }

def withReadiness (w : Workload) (p : Probe) : Workload := { w with readiness := some p }

/-- Check by HTTP on the first port both that it is alive and that it is ready. -/
def withHealthCheck (w : Workload) (path : String) : Workload :=
  let probe := Probe.http path (w.primaryPort.getD 80)
  (w.withLiveness probe).withReadiness (probe.withInitialDelay 5)

def addCompanion (w : Workload) (c : Companion) : Workload :=
  { w with companions := w.companions ++ [c] }

def addVolume (w : Workload) (v : Volume) : Workload := { w with volumes := w.volumes ++ [v] }

def addStorage (w : Workload) (s : Storage) : Workload := { w with storage := w.storage ++ [s] }

def addDependency (w : Workload) (service : String) : Workload :=
  { w with dependsOn := w.dependsOn ++ [service] }

def addConnection (w : Workload) (service : String) : Workload :=
  { w with connectsTo := w.connectsTo ++ [service] }

def withMetrics (w : Workload) (port : Nat) (path : String) : Workload :=
  { w with metrics := some { port, path } }

/-- Have a monitor of the Service generated, if metrics are served. -/
def withServiceMonitor (w : Workload) : Workload :=
  { w with metrics := w.metrics.map fun m => { m with serviceMonitor := true } }

def withServiceAccountName (w : Workload) (name : String) : Workload :=
  { w with serviceAccount := some name }

def withNodeSelector (w : Workload) (key value : String) : Workload :=
  { w with nodeSelector := w.nodeSelector.insertSorted key value }

def withRestart (w : Workload) (policy : String) : Workload := { w with restart := some policy }

end Workload

end Rollout

/-!
### What is wrong with a workload

Problems are advice: a workload with problems is rendered all the same.
-/

namespace Rollout.Workload

/-- Whether a text has a blank. -/
def hasBlank (s : String) : Bool := s.toList.any Text.isBlank

def imageProblems (what : String) (w : Workload) : List String :=
  let name := w.name
  match w.image with
  | some image =>
    if (Text.trim image).isEmpty || hasBlank image then
      [s!"{what} '{name}' has invalid image '{image}'"]
    else []
  | none =>
    if w.build.isSome then []
    else
      [s!"{what} '{name}' has no image or build context; " ++ Image.fallback ++ " will be used"]

/-- The problems of ports, those before being known. -/
def portProblemsFrom (what name : String) : (seen : List Nat) → List Port → List String
  | _, [] => []
  | seen, p :: ps =>
    (if p.container = 0 then [s!"{what} '{name}' declares container port 0"] else []) ++
    (if seen.contains p.container then
      [s!"{what} '{name}' declares container port {p.container} more than once"] else []) ++
    portProblemsFrom what name (p.container :: seen) ps

/-- Whether a variable cannot have a name. -/
def isBadVariable (key : String) : Bool := key.isEmpty || hasBlank key || key.toList.contains '='

/-- What is wrong with a workload of a definition of some type. -/
def problems (files : FileTree) (what : String) (w : Workload) : List String :=
  let name := w.name
  w.info.problems what ++ w.imageProblems what ++ portProblemsFrom what name [] w.ports ++
    ((w.env.keys.filter isBadVariable).map
      fun key => s!"{what} '{name}' has invalid environment variable name '{key}'") ++
    ((w.companions.filter fun c => !Name.isValidLabel c.name).map
      fun c => s!"{what} '{name}' has companion with invalid name '{c.name}'") ++
    ((w.storage.filter fun s => !Name.isValidLabel s.name).map
      fun s => s!"{what} '{name}' has storage with invalid name '{s.name}'") ++
    w.configMaps.flatMap (ConfigMap.problems files) ++ w.secrets.flatMap (Secret.problems files)

end Rollout.Workload
