import Rollout.Access.Role
import Rollout.App.Scaling
import Rollout.Batch.Job
import Rollout.Network.Ingress
import Rollout.Network.Service
import Rollout.Workload.Basic
import Rollout.Workload.Template

/-!
# Applications

A stateless application: a Deployment, the Service in front of it, and everything that
is attached to it. The Service has the name of the application.
-/

namespace Rollout

/-- A stateless application. -/
structure App where
  workload : Workload
  scaling : Scaling := {}
  /-- Whether there is a Service even without ports. -/
  expose : Bool := false
  serviceType : ServiceType := .clusterIP
  ingresses : List Ingress := []
  jobs : List Job := []
  cronJobs : List CronJob := []
  /-- An account that is made for the pods. -/
  managedServiceAccount : Option ServiceAccount := none

namespace App

/-- An application without settings. -/
def named (name : String) : App := { workload := .named name }

def codec : Codec App :=
  .mapping "App" <|
    App.mk <$> .part (·.workload) Workload.fields
      <*> .defaulted "scaling" (·.scaling) Scaling.codec {}
      <*> .defaulted "expose" (·.expose) .bool false
      <*> .defaulted "serviceType" (·.serviceType) ServiceType.codec .clusterIP
      <*> .items "ingresses" (·.ingresses) Ingress.codec
      <*> .items "jobs" (·.jobs) Job.codec
      <*> .items "cronJobs" (·.cronJobs) CronJob.codec
      <*> .optional "managedServiceAccount" (·.managedServiceAccount) ServiceAccount.codec

def info (a : App) : Meta := a.workload.info

/-! ### Setting it up -/

def mapWorkload (a : App) (f : Workload → Workload) : App := { a with workload := f a.workload }

def mapInfo (a : App) (f : Meta → Meta) : App := a.mapWorkload (·.mapInfo f)

def withReplicas (a : App) (replicas : Nat) : App :=
  { a with scaling := { a.scaling with replicas } }

def withScaling (a : App) (scaling : Scaling) : App := { a with scaling }

/-- Scale automatically within bounds. -/
def autoscale (a : App) (low high : Nat) : App := a.withScaling (a.scaling.withBounds low high)

/-- Have a Service even without ports. -/
def exposed (a : App) : App := { a with expose := true }

/-- Choose the type of the Service, which is then there in any case. -/
def withServiceType (a : App) (serviceType : ServiceType) : App :=
  { a with serviceType, expose := true }

def addIngress (a : App) (i : Ingress) : App := { a with ingresses := a.ingresses ++ [i] }

/-- Route a host to the Service, by an Ingress with the name of the application. -/
def withIngressHost (a : App) (host : String) : App :=
  let i : Ingress := { info := { name := a.info.name, ns := a.info.ns } }
  a.addIngress (i.withHost host)

def addJob (a : App) (j : Job) : App := { a with jobs := a.jobs ++ [j] }

def addCronJob (a : App) (j : CronJob) : App := { a with cronJobs := a.cronJobs ++ [j] }

/-- Make an account and run the pods under it. -/
def withServiceAccount (a : App) (account : ServiceAccount) : App :=
  { a.mapWorkload (·.withServiceAccountName account.info.name) with
    managedServiceAccount := some account }

/-! ### Its Service -/

/-- The port of metrics that a monitor collects. -/
def monitoredPort? (a : App) : Option Nat :=
  (a.workload.metrics.filter (·.serviceMonitor)).map (·.port)

def hasService (a : App) : Bool :=
  a.expose || !a.workload.ports.isEmpty || a.monitoredPort?.isSome

/-- The ports of the Service that lead to the ports of the container. -/
def containerPorts (a : App) : List ServicePort :=
  a.workload.ports.mapIdx fun i p =>
    { port := p.container, targetPort := p.container, name := some (p.nameAt i)
      protocol := p.protocol }

/-- The port for metrics, unless another port leads there. -/
def metricsPorts (a : App) : List ServicePort :=
  match a.monitoredPort? with
  | none => []
  | some port =>
    if a.containerPorts.any (·.targetPort = port) then []
    else [{ port, targetPort := port, name := some "metrics" }]

/-- The ports of the Service. There is always one. -/
def servicePorts (a : App) : List ServicePort :=
  let ports := a.containerPorts ++ a.metricsPorts
  if ports.isEmpty then [{ port := 80, targetPort := 80, name := some "http" }] else ports

/-- The port to which an attached Ingress routes what has no backend. -/
def backendPort (a : App) : Nat := (a.servicePorts.head?.map (·.port)).getD 80

/-- An attached Ingress with all its backends. -/
def routed (a : App) (i : Ingress) : Ingress := i.withDefaultBackend a.info.name a.backendPort

def serviceRecord (a : App) : Record :=
  ⟨[("apiVersion", .text "v1"), ("kind", .text "Service"), ("metadata", a.info.toValue true),
    ("spec", .mapping [a.serviceType.entry, ("selector", .textMap a.info.selector),
      ("ports", .list (a.servicePorts.map fun p =>
        .mapping [("name", .text (p.name.getD "")), ("port", .nat p.port),
          ("targetPort", .nat p.targetPort), ("protocol", .text p.protocol.name)]))])]⟩

/-! ### Its records -/

def deploymentRecord (a : App) (notes : Assoc String) : Record :=
  ⟨[("apiVersion", .text "apps/v1"), ("kind", .text "Deployment"),
    ("metadata", a.info.toValue true),
    ("spec", .mapping [("replicas", .nat a.scaling.replicas),
      ("selector", .mapping [("matchLabels", .textMap a.info.selector)]),
      ("template", a.workload.podTemplate .claims notes)])]⟩

def claimRecords (a : App) : List Record :=
  a.workload.storage.map fun s =>
    ⟨[("apiVersion", .text "v1"), ("kind", .text "PersistentVolumeClaim"),
      ("metadata", a.info.toValueNamed (a.workload.claimName s) true), ("spec", s.claimSpec)]⟩

/-- The record by which metrics are collected. -/
def monitorRecord? (a : App) : Option Record :=
  (a.workload.metrics.filter (·.serviceMonitor)).map fun m =>
    ⟨[("apiVersion", .text "monitoring.coreos.com/v1"), ("kind", .text "ServiceMonitor"),
      ("metadata", a.info.toValue true),
      ("spec", .mapping [("selector", .mapping [("matchLabels", .textMap a.info.selector)]),
        ("endpoints", .list [.mapping [("targetPort", .nat m.port), ("path", .text m.path)]])])]⟩

/-- The records of everything nested that is neither a route nor configuration. -/
def attachedRecords (a : App) : List Record :=
  a.jobs.flatMap Job.records ++ a.cronJobs.flatMap CronJob.records ++
    (a.managedServiceAccount.map ServiceAccount.records).getD []

def records (files : FileTree) (a : App) : Except SourceError (List Record) := do
  let notes ← a.workload.checksumNotes files
  let config ← a.workload.configRecords files
  .ok (a.deploymentRecord notes :: (if a.hasService then [a.serviceRecord] else []) ++
    a.workload.adopt (a.ingresses.flatMap fun i => (a.routed i).records) ++ config ++
    a.claimRecords ++ a.workload.adopt a.attachedRecords ++ (a.scaling.record? a.info).toList ++
    a.monitorRecord?.toList)

def problems (files : FileTree) (a : App) : List String :=
  let name := a.info.name
  a.workload.problems files "App" ++ a.scaling.problems name ++
    (if a.scaling.replicas = 0 ∧ !a.scaling.isAutomatic then
      [s!"App '{name}' has 0 replicas and will not run"] else []) ++
    (a.ingresses.flatMap fun i => (a.routed i).problems) ++ a.jobs.flatMap Job.problems ++
    a.cronJobs.flatMap CronJob.problems

/-- What compose makes nothing of. -/
def composeNotes (a : App) : List String :=
  let name := a.info.name
  (if a.ingresses.isEmpty then []
    else [s!"App '{name}': ingress rules have no compose equivalent; " ++
      "ports are published instead"]) ++
  (if a.scaling.isAutomatic then [s!"App '{name}': autoscaling is ignored by compose"]
    else []) ++
  (if a.jobs.isEmpty && a.cronJobs.isEmpty then []
    else [s!"App '{name}': jobs are ignored by compose"]) ++
  (if a.workload.nodeSelector.isEmpty then []
    else [s!"App '{name}': node selector is ignored by compose"]) ++
  if a.managedServiceAccount.isSome then [s!"App '{name}': service account is ignored by compose"]
  else []

/-- What all formats but compose make nothing of. -/
def clusterNotes (a : App) : List String :=
  let name := a.info.name
  let image := a.workload.imageOrDefault
  (if a.workload.build.isSome then
    [s!"App '{name}': build context is only used by compose; image {image} is deployed"]
  else []) ++
  (if a.workload.restart.isSome then [s!"App '{name}': restart policy is only used by compose"]
    else []) ++
  if a.workload.dependsOn.isEmpty then []
  else [s!"App '{name}': startup ordering is only enforced by compose"]

end App

end Rollout
