import Rollout.Record.Basic

/-!
# Order and identity of records

Records are applied kind by kind, each kind after those it may refer to, and each object
once.
-/

/-!
### Kinds

What depends on the kind of a record alone: whether it lives in a namespace, when it is
applied, and which part of an application it counts as.
-/

namespace Rollout.Kind

/-- The kinds that never live in a namespace. -/
def clusterScoped : List String :=
  ["Namespace", "ClusterRole", "ClusterRoleBinding", "CustomResourceDefinition",
    "PersistentVolume", "StorageClass", "PriorityClass"]

/-- Whether a kind never lives in a namespace. -/
def isClusterScoped (kind : String) : Bool := clusterScoped.contains kind

/-- The kinds in the order in which they are applied: each after those it may refer to. -/
def applyOrder : List String :=
  ["Namespace", "CustomResourceDefinition", "ServiceAccount", "Role", "RoleBinding",
    "ClusterRole", "ClusterRoleBinding", "ConfigMap", "Secret", "PersistentVolume",
    "PersistentVolumeClaim", "Service", "Deployment", "StatefulSet", "DaemonSet", "Job",
    "CronJob", "Ingress", "HorizontalPodAutoscaler", "NetworkPolicy", "ServiceMonitor"]

/-- The priority of all kinds that have no place of their own. -/
def lastPriority : Nat := 100

/-- The place of a kind in the order of application. -/
def priority (kind : String) : Nat := (applyOrder.idxOf? kind).getD lastPriority

/-- The part of an application that the records of a kind make up. -/
def component (kind : String) : String :=
  match kind with
  | "Deployment" | "StatefulSet" | "DaemonSet" | "ReplicaSet" | "Pod" => "application"
  | "Service" | "Ingress" | "NetworkPolicy" => "network"
  | "ConfigMap" | "Secret" => "configuration"
  | "Job" | "CronJob" => "batch"
  | "PersistentVolume" | "PersistentVolumeClaim" | "StorageClass" => "storage"
  | "ServiceAccount" | "Role" | "RoleBinding" | "ClusterRole" | "ClusterRoleBinding" =>
    "security"
  | "HorizontalPodAutoscaler" => "scaling"
  | "ServiceMonitor" => "monitoring"
  | _ => "other"

end Rollout.Kind

/-! ### Records -/

namespace Rollout.Record

/-- The order of optional names: none comes first, then they follow their characters. -/
def nameLe : Option String → Option String → Bool
  | none, _ => true
  | some _, none => false
  | some a, some b => a ≤ b

/-- Whether a record is applied no later than another. Kinds without a place of their own
come last and go by name. -/
def appliedBefore (a b : Record) : Bool :=
  let p := Kind.priority a.kind
  let q := Kind.priority b.kind
  p < q || (p == q && (p != Kind.lastPriority || nameLe a.name? b.name?))

/-- The records in the order of application. Equals stay in the order they had. -/
def sortForApply (rs : List Record) : List Record := rs.mergeSort appliedBefore

/-- The records whose identity is not among those seen, each identity once. -/
def distinctFrom (seen : List Identity) : List Record → List Record
  | [] => []
  | r :: rs =>
    if seen.contains r.identity then distinctFrom seen rs
    else r :: distinctFrom (r.identity :: seen) rs

/-- The first record of each identity. -/
def distinct (rs : List Record) : List Record := distinctFrom [] rs

end Rollout.Record
