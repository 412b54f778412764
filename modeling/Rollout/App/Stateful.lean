import Rollout.Batch.Job
import Rollout.Workload.Basic
import Rollout.Workload.Template

/-!
# Stateful applications

An application whose pods keep their names and their storage: a StatefulSet, the
headless Service by which its pods are reached, and a scheduled backup.
-/

namespace Rollout

/-- The order in which pods are started and stopped. -/
inductive PodManagementPolicy where
  | orderedReady
  | parallel
deriving DecidableEq

namespace PodManagementPolicy

def name : PodManagementPolicy → String
  | orderedReady => "OrderedReady"
  | parallel => "Parallel"

def codec : Codec PodManagementPolicy := .choice [orderedReady, parallel] name

end PodManagementPolicy

/-- A scheduled backup. -/
structure Backup where
  schedule : String
  image : String
  command : List String := []
  /-- How many successful runs are kept. -/
  retention : Nat := 7
deriving DecidableEq

namespace Backup

def codec : Codec Backup :=
  .struct "Backup" <|
    Backup.mk <$> .required "schedule" (·.schedule) .text
      <*> .required "image" (·.image) .text
      <*> .items "command" (·.command) .text
      <*> .defaulted "retention" (·.retention) .nat32 7

end Backup

/-- A stateful application. -/
structure StatefulApp where
  workload : Workload
  replicas : Nat := 1
  podManagementPolicy : PodManagementPolicy := .orderedReady
  backup : Option Backup := none

namespace StatefulApp

/-- A stateful application without settings. -/
def named (name : String) : StatefulApp := { workload := .named name }

def codec : Codec StatefulApp :=
  .mapping "StatefulApp" <|
    StatefulApp.mk <$> .part (·.workload) Workload.fields
      <*> .defaulted "replicas" (·.replicas) .nat32 1
      <*> .defaulted "podManagementPolicy" (·.podManagementPolicy) PodManagementPolicy.codec
        .orderedReady
      <*> .optional "backup" (·.backup) Backup.codec

def info (a : StatefulApp) : Meta := a.workload.info

def mapWorkload (a : StatefulApp) (f : Workload → Workload) : StatefulApp :=
  { a with workload := f a.workload }

def mapInfo (a : StatefulApp) (f : Meta → Meta) : StatefulApp := a.mapWorkload (·.mapInfo f)

def statefulSetRecord (a : StatefulApp) (notes : Assoc String) : Record :=
  ⟨[("apiVersion", .text "apps/v1"), ("kind", .text "StatefulSet"),
    ("metadata", a.info.toValue true),
    ("spec", .mapping <|
      [("serviceName", .text a.info.name), ("replicas", .nat a.replicas),
        ("podManagementPolicy", .text a.podManagementPolicy.name),
        ("selector", .mapping [("matchLabels", .textMap a.info.selector)]),
        ("template", a.workload.podTemplate .claimTemplates notes)] ++
        listEntry "volumeClaimTemplates" (a.workload.storage.map fun s =>
          .mapping [("metadata", .mapping [("name", .text s.name)]), ("spec", s.claimSpec)]))]⟩

def serviceRecord (a : StatefulApp) : Record :=
  ⟨[("apiVersion", .text "v1"), ("kind", .text "Service"), ("metadata", a.info.toValue true),
    ("spec", .mapping [("clusterIP", .text "None"), ("selector", .textMap a.info.selector),
      ("ports", .list (a.workload.ports.mapIdx fun i p =>
        .mapping [("name", .text (p.nameAt i)), ("port", .nat p.container),
          ("targetPort", .nat p.container), ("protocol", .text p.protocol.name)]))])]⟩

/-- The job that backs up the first pod. -/
def backupJob (a : StatefulApp) (b : Backup) : CronJob :=
  let name := a.info.name
  { info := { name := name ++ "-backup", ns := a.info.ns, labels := a.info.labels }
    schedule := b.schedule
    concurrencyPolicy := .forbid
    successfulJobsHistoryLimit := some b.retention
    failedJobsHistoryLimit := some 1
    template :=
      { image := some b.image, command := b.command
        env := [("BACKUP_TARGET", s!"{name}-0.{name}")] } }

def records (files : FileTree) (a : StatefulApp) : Except SourceError (List Record) := do
  let notes ← a.workload.checksumNotes files
  let config ← a.workload.configRecords files
  .ok (a.statefulSetRecord notes :: a.serviceRecord ::
    (a.backup.map fun b => (a.backupJob b).records).getD [] ++ config)

def problems (files : FileTree) (a : StatefulApp) : List String :=
  let name := a.info.name
  a.workload.problems files "StatefulApp" ++
    (if a.workload.storage.isEmpty then
      [s!"StatefulApp '{name}' declares no storage; consider an App instead"] else []) ++
    (if a.workload.ports.isEmpty then
      [s!"StatefulApp '{name}' exposes no ports; its headless Service will have none"]
    else []) ++
    (a.backup.map fun b => (a.backupJob b).problems).getD []

/-- What compose makes nothing of. -/
def composeNotes (a : StatefulApp) : List String :=
  let name := a.info.name
  (if a.replicas > 1 then [s!"StatefulApp '{name}': compose runs a single replica"] else []) ++
  if a.backup.isSome then [s!"StatefulApp '{name}': backup schedule is ignored by compose"] else []

/-- What all formats but compose make nothing of. -/
def clusterNotes (a : StatefulApp) : List String :=
  let name := a.info.name
  if a.workload.build.isSome then
    [s!"StatefulApp '{name}': build context is only used by compose"]
  else []

end StatefulApp

end Rollout
