import Rollout.Decimal.Reader
import Rollout.Decimal.Style
import Rollout.Output
import Rollout.Text.Split
import Rollout.Workload.Basic

/-!
# Services of compose

A workload becomes one service, and so does each of its companions. The data of attached
Secrets and ConfigMaps are variables of the service and, where they are mounted, files
beside the compose file.
-/

/-!
### Quantities

A processor share in thousandths becomes one in whole processors, and an amount of
memory loses the sign of its binary unit.
-/

namespace Rollout.Compose

/-- The words for an infinite number. -/
def infiniteWords : List String := ["inf", "infinity"]

/-- The quotient of a number and a thousand. The number may also be one of the words for
what is not finite; a decimal that is too large counts as infinite. -/
def thousandth? (number : String) : Option String :=
  let (negative, word) := splitSign number.toList
  let word := (String.ofList word).toLower
  let infinite := if negative then "-inf" else "inf"
  if infiniteWords.contains word then some infinite
  else if word = "nan" then some "NaN"
  else
    (SignedDecimal.read? number.toList).map fun d =>
      match d.toDouble?.bind fun x => Double.div? x (Double.ofInt 1000) with
      | some q => NumberStyle.full.text q
      | none => infinite

/-- A processor share. -/
def cpus (quantity : String) : String :=
  ((Text.dropEnd? "m" quantity).bind thousandth?).getD quantity

/-- An amount of memory. -/
def memory (quantity : String) : String := (Text.dropEnd? "i" quantity).getD quantity

/-! ### Attached data -/

/-- The data of a Secret or ConfigMap that is attached to a workload. -/
structure Attachment where
  name : String
  mountPath : Option String
  data : ResolvedData

/-- A workload with the data of all that is attached to it. -/
structure Deployed where
  workload : Workload
  secrets : List Attachment
  configMaps : List Attachment

/-- Resolve all that is attached to a workload. -/
def deployed (files : FileTree) (w : Workload) : Except SourceError Deployed := do
  let secrets ← w.secrets.mapM fun s =>
    (s.resolve files).map fun d => ⟨s.info.name, s.mountPath, d⟩
  let configMaps ← w.configMaps.mapM fun c =>
    (c.resolve files).map fun d => ⟨c.info.name, c.mountPath, d⟩
  .ok ⟨w, secrets, configMaps⟩

/-! ### Environment -/

/-- The variable for a key of attached data. -/
def variableName (owner key : String) : String :=
  Name.envVariable owner ++ "_" ++ Name.envVariable key

/-- The variables for attached data. -/
def Attachment.assignments (a : Attachment) : List (String × String) :=
  a.data.text.map fun (key, value) => (variableName a.name key, value)

/-- The variables of a workload: its own, then those of Secrets and of ConfigMaps. Of two
values for a variable the later one counts. -/
def Deployed.environment (d : Deployed) : Assoc String :=
  d.workload.env.insertAll ((d.secrets ++ d.configMaps).flatMap Attachment.assignments)

/-! ### Mounts -/

/-- The mode in which a volume is mounted. -/
def modeText (readOnly : Bool) : String := if readOnly then ":ro" else ""

/-- How a volume is mounted. -/
def volumeMount (v : Volume) : String :=
  match v.source with
  | .emptyDir => v.mountPath
  | .hostPath path => path ++ ":" ++ v.mountPath ++ modeText v.readOnly
  | .claim name => name ++ ":" ++ v.mountPath ++ modeText v.readOnly

/-- The volumes that are declared for a workload. -/
def namedVolumes (w : Workload) : List String :=
  w.storage.map w.claimName ++
    w.volumes.filterMap fun v =>
      match v.source with
      | .claim name => some name
      | _ => none

/-- The directory with the files of attached data. -/
def Attachment.directory (a : Attachment) (parent : String) : String :=
  parent ++ "/" ++ Name.fileName a.name

/-- How attached data are mounted, if they are. -/
def Attachment.mount? (a : Attachment) (parent : String) : Option String :=
  a.mountPath.map fun path => "./" ++ a.directory parent ++ ":" ++ path ++ ":ro"

/-- The files of attached data, if they are mounted. -/
def Attachment.files (a : Attachment) (parent : String) : List OutputFile :=
  if a.mountPath.isNone then []
  else
    let place (key : String) := a.directory parent ++ "/" ++ Name.fileName key
    (a.data.text.map fun (key, text) => .ofText (place key) text) ++
      a.data.binary.map fun (key, content) => ⟨place key, content⟩

def configParent : String := "config"

def secretParent : String := "secrets"

def Deployed.mounts (d : Deployed) : List String :=
  d.workload.storage.map (fun s => d.workload.claimName s ++ ":" ++ s.mountPath) ++
    d.workload.volumes.map volumeMount ++ d.configMaps.filterMap (·.mount? configParent) ++
    d.secrets.filterMap (·.mount? secretParent)

/-- The files that are mounted into a service. -/
def Deployed.files (d : Deployed) : List OutputFile :=
  d.configMaps.flatMap (·.files configParent) ++ d.secrets.flatMap (·.files secretParent)

/-! ### Other parts of a service -/

/-- The policy of compose for pulling images. -/
def pullPolicy? (policy : String) : Option String :=
  match policy with
  | "Always" => some "always"
  | "IfNotPresent" => some "missing"
  | "Never" => some "never"
  | _ => none

/-- A request to a port of the service itself. -/
def requestTest (port : Nat) (path : String) : Value :=
  .texts ["CMD", "curl", "-f", s!"http://localhost:{port}{path}"]

/-- The test that a probe stands for, if compose can run it. -/
def probeTest? (p : Probe) : Option Value :=
  match p.action with
  | .http path port => some (requestTest port path)
  | .exec command => some (.texts ("CMD" :: command))
  | .tcp _ => none

/-- The health check by a probe. -/
def probeCheck? (p : Probe) : Option Value :=
  (probeTest? p).map fun test =>
    .mapping [("test", test), ("interval", .text s!"{p.period}s"),
      ("timeout", .text s!"{p.timeout}s"), ("retries", .nat p.failureThreshold),
      ("start_period", .text s!"{p.initialDelay}s")]

/-- The health check of a workload: its first probe that compose can run, or else a request
to its first port. -/
def healthCheck? (w : Workload) : Option Value :=
  match (w.liveness.toList ++ w.readiness.toList).filterMap probeCheck? with
  | check :: _ => some check
  | [] =>
    w.primaryPort.map fun port =>
      .mapping [("test", requestTest port "/health"), ("interval", .text "30s"),
        ("timeout", .text "10s"), ("retries", .nat 3)]

/-- The service for a companion of a workload. -/
def companionName (w : Workload) (c : Companion) : String := w.name ++ "-" ++ c.name

/-- A condition on another service. -/
def condition (name : String) : Value := .mapping [("condition", .text name)]

/-- The services that a workload waits for. -/
def dependencies (w : Workload) : Assoc Value :=
  let healthy := w.dependsOn.map fun s => (s, condition "service_healthy")
  let started := w.connectsTo.map fun s => (s, condition "service_started")
  let completed := (w.companions.filter (·.isInit)).map fun c =>
    (companionName w c, condition "service_completed_successfully")
  let awaited := started.foldl (fun m (s, v) => m.insertNew s v) (Assoc.ofPairs healthy)
  awaited.insertAll completed

/-- The limits or reservations of a service. -/
def amounts (key : String) (cpu memory : Option String) : Assoc Value :=
  Requirements.group key <|
    optionEntry "cpus" cpu (fun q => .text (cpus q)) ++
      optionEntry "memory" memory (fun q => .text (Compose.memory q))

/-- What a service may use, if there are limits or reservations. -/
def deploy? (r : Requirements) : Option Value :=
  let entries := amounts "limits" r.cpuLimit r.memoryLimit ++
    amounts "reservations" r.cpuRequest r.memoryRequest
  if entries.isEmpty then none else some (.mapping [("resources", .mapping entries)])

/-- How an image is built. -/
def buildValue (b : BuildContext) : Value :=
  .mapping <|
    [("context", .text b.context)] ++ optionEntry "dockerfile" b.dockerfile .text ++
      if b.args.isEmpty then [] else [("args", .textMap b.args)]

/-- The image of a service, or how it is built. -/
def imageEntry (w : Workload) : String × Value :=
  match w.build with
  | some b => ("build", buildValue b)
  | none => ("image", .text w.imageOrDefault)

/-- A mapping that is left out if it is empty. -/
def mapEntry (key : String) (entries : Assoc Value) : Assoc Value :=
  if entries.isEmpty then [] else [(key, .mapping entries)]

/-- The service for a workload. -/
def Deployed.service (d : Deployed) (network : String) : Value :=
  let w := d.workload
  .mapping <|
    [imageEntry w] ++ optionEntry "pull_policy" (w.imagePullPolicy.bind pullPolicy?) .text ++
      textsEntry "entrypoint" w.command ++ textsEntry "command" w.args ++
      textsEntry "ports" (w.ports.map Port.publishing) ++
      mapEntry "environment" (d.environment.mapValues .text) ++ textsEntry "volumes" d.mounts ++
      optionEntry "healthcheck" (healthCheck? w) id ++ mapEntry "depends_on" (dependencies w) ++
      optionEntry "deploy" (w.requirements.bind deploy?) id ++
      [("restart", .text (w.restart.getD "unless-stopped")), ("networks", .texts [network])]

/-- How a companion runs beside its workload: before it, or as long as it does. -/
def companionRun (owner : String) (c : Companion) : Assoc Value :=
  if c.isInit then [("restart", .text "no")]
  else
    [("depends_on", .mapping [(owner, condition "service_started")]),
      ("restart", .text "unless-stopped")]

/-- The service for a companion. -/
def companionService (owner network : String) (c : Companion) : Value :=
  .mapping <|
    [("image", .text c.image)] ++ textsEntry "entrypoint" c.command ++
      textsEntry "command" c.args ++ textsEntry "ports" (c.ports.map fun p => s!"{p}:{p}") ++
      mapEntry "environment" (c.env.mapValues .text) ++ companionRun owner c ++
      [("networks", .texts [network])]

/-- The services for a workload and its companions, by name. -/
def Deployed.services (d : Deployed) (network : String) : List (String × Value) :=
  (d.workload.companions.map fun c =>
    (companionName d.workload c, companionService d.workload.name network c)) ++
    [(d.workload.name, d.service network)]

end Rollout.Compose
