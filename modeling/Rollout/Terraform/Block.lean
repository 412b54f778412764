import Rollout.Hcl.Item
import Rollout.Name
import Rollout.Record.Order
import Rollout.Terraform.Module

/-!
# Resources for records

Every record becomes a resource of a type chosen by its kind. Kinds without a type of
their own become manifests, which hold the whole record. A record in the namespace of
the module, or in none, is bound to the variable for the namespace.
-/

namespace Rollout.Terraform

/-- The type of the resources for a kind, if it has one of its own. -/
def resourceType? (kind : String) : Option String :=
  List.lookup kind
    [("Namespace", "kubernetes_namespace_v1"),
      ("ServiceAccount", "kubernetes_service_account_v1"),
      ("Role", "kubernetes_role_v1"),
      ("RoleBinding", "kubernetes_role_binding_v1"),
      ("ClusterRole", "kubernetes_cluster_role_v1"),
      ("ClusterRoleBinding", "kubernetes_cluster_role_binding_v1"),
      ("ConfigMap", "kubernetes_config_map_v1"),
      ("Secret", "kubernetes_secret_v1"),
      ("PersistentVolume", "kubernetes_persistent_volume_v1"),
      ("PersistentVolumeClaim", "kubernetes_persistent_volume_claim_v1"),
      ("Service", "kubernetes_service_v1"),
      ("Deployment", "kubernetes_deployment_v1"),
      ("StatefulSet", "kubernetes_stateful_set_v1"),
      ("DaemonSet", "kubernetes_daemon_set_v1"),
      ("Job", "kubernetes_job_v1"),
      ("CronJob", "kubernetes_cron_job_v1"),
      ("Ingress", "kubernetes_ingress_v1"),
      ("HorizontalPodAutoscaler", "kubernetes_horizontal_pod_autoscaler_v2"),
      ("NetworkPolicy", "kubernetes_network_policy_v1"),
      ("PodDisruptionBudget", "kubernetes_pod_disruption_budget_v1"),
      ("StorageClass", "kubernetes_storage_class_v1"),
      ("PriorityClass", "kubernetes_priority_class_v1"),
      ("ResourceQuota", "kubernetes_resource_quota_v1"),
      ("LimitRange", "kubernetes_limit_range_v1")]

/-- The type of the resources for all other kinds. -/
def manifestType : String := "kubernetes_manifest"

/-- The kinds whose names are outputs of the module. -/
def namedKinds : List String := ["Service", "Deployment", "StatefulSet", "Ingress"]

/-- The resource for a record. -/
structure Block where
  kind : String
  name : String
  resourceType : String
  label : String
  body : Assoc Hcl

namespace Block

/-- The address by which expressions refer to the resource. -/
def address (b : Block) : String := b.resourceType ++ "." ++ b.label

/-- Whether the resource holds the record as a whole. -/
def isManifest (b : Block) : Bool := b.resourceType == manifestType

/-- The resource in a file. -/
def item (b : Block) : Hcl.Item :=
  .block "resource" [b.resourceType, b.label]
    (if b.isManifest then [.attribute "manifest" (.object b.body)] else Hcl.recordItems b.body)

/-- The output for the name of the resource. -/
def output (b : Block) : ModuleOutput :=
  { name := b.label ++ "_" ++ Hcl.snakeCase b.kind ++ "_name"
    value := b.address ++ ".metadata[0].name"
    description := some s!"Name of the {b.kind} {b.name}" }

end Block

/-- Whether a record is bound to the variable for the namespace. -/
def isBound (m : TerraformModule) (r : Record) : Bool :=
  !Kind.isClusterScoped r.kind && r.namespace?.all (· == m.boundNamespace)

/-- Put the metadata into the namespace that the variable names. -/
def bind (body : Assoc Hcl) : Assoc Hcl :=
  match body.get? "metadata" with
  | some (.object entries) =>
    let bound := Assoc.insert entries "namespace" (.expression "var.namespace")
    body.insert "metadata" (.object bound)
  | _ => body

/-- The content of a Secret under the names it has in a resource: plain texts are `data`,
encoded bytes are `binary_data`. -/
def renameContent (body : Assoc Hcl) : Assoc Hcl :=
  let put (key : String) (v : Option Hcl) (body : Assoc Hcl) : Assoc Hcl :=
    match v with
    | some v => body.insert key v
    | none => body
  let rest := (body.erase "data").erase "stringData"
  put "binary_data" (body.get? "data") (put "data" (body.get? "stringData") rest)

/-- The fields of a record that a resource of its own type holds. -/
def typedBody (kind : String) (body : Assoc Hcl) : Assoc Hcl :=
  let body := ((body.erase "apiVersion").erase "kind").erase "status"
  if kind = "Secret" then renameContent body else body

/-- The label of a record whose type of resource occurs before so many times. -/
def labelAfter (count : Nat) (name : String) : String :=
  if count = 0 then Name.identifier name else s!"{Name.identifier name}_{count + 1}"

/-- The resource for a record, given the types of those before. -/
def blockOf (m : TerraformModule) (before : List String) (r : Record) : Block :=
  let whole := (Hcl.ofValue r.toValue).entries
  let body := if isBound m r then bind whole else whole
  let name := r.name?.getD "unnamed"
  match resourceType? r.kind with
  | some typeName =>
    ⟨r.kind, name, typeName, labelAfter (before.count typeName) name, typedBody r.kind body⟩
  | none => ⟨r.kind, name, manifestType, labelAfter (before.count manifestType) name, body⟩

/-- The resources for records, given the types of those before. -/
def blocksFrom (m : TerraformModule) (before : List String) : List Record → List Block
  | [] => []
  | r :: rs =>
    let b := blockOf m before r
    b :: blocksFrom m (b.resourceType :: before) rs

/-- The resources for records, each object once, in the order of application. -/
def blocks (m : TerraformModule) (rs : List Record) : List Block :=
  blocksFrom m [] (Record.sortForApply (Record.distinct rs))

/-- The outputs of a module: the names of some resources, unless one is declared under the
same name, and the declared ones. -/
def outputs (m : TerraformModule) (bs : List Block) : List ModuleOutput :=
  let named := (bs.filter fun b => namedKinds.contains b.kind).map Block.output
  (named.filter fun o => !m.outputs.any (·.name == o.name)) ++ m.outputs

end Rollout.Terraform
