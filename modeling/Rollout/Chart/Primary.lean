import Rollout.Definition.Basic

/-!
# The workload of a chart

A chart is made around the first workload of a definition: the records of its name become
templates that the values of the chart drive. The values begin as what these records say.
-/

namespace Rollout.Chart

/-- A record with its place in the list of all records. -/
structure Placed where
  place : Nat
  record : Record

/-- The first record of a kind with a name. -/
def findNamed (rs : List Record) (kind name : String) : Option Placed :=
  (rs.mapIdx Placed.mk).find? fun p =>
    p.record.kind? == some kind && p.record.name? == some name

/-- The workload of a chart, and the records that its templates stand for. -/
structure Primary where
  workload : Workload
  record : Placed
  service : Option Placed
  ingress : Option Placed
  autoscaler : Option Placed
  account : Option Placed

namespace Primary

/-- The workload of a chart for a definition with some records. -/
def find? (d : Definition) (rs : List Record) : Option Primary := do
  let workload ← d.workloads.head?
  let named (kind : String) := findNamed rs kind workload.name
  let record ← (named "Deployment").or (named "StatefulSet")
  some
    { workload
      record
      service := named "Service"
      ingress := named "Ingress"
      autoscaler := named "HorizontalPodAutoscaler"
      account := workload.serviceAccount.bind (findNamed rs "ServiceAccount") }

/-- The records that templates stand for. -/
def covered (p : Primary) : List Placed :=
  p.record :: ([p.service, p.ingress, p.autoscaler, p.account].filterMap id)

/-- Whether a template stands for the record at a place. -/
def covers (p : Primary) (place : Nat) : Bool := p.covered.any (·.place = place)

def kind (p : Primary) : String := p.record.record.kind?.getD "Deployment"

/-- The value at a path of a record, if there is the record. -/
def read (r : Option Placed) (path : String) : Option Value := r.bind (·.record.get? path)

/-- A field of a value that may not be there. -/
def field (v : Option Value) (key : String) : Option Value := v.bind (·.field? key)

/-- The value of a field, null if there is none. -/
def fieldOrNull (v : Value) (key : String) : Value := (v.field? key).getD .null

/-- The items of a list, none of anything else. -/
def itemsOf (v : Option Value) : List Value := (v.map Value.items).getD []

/-- What the values say of the Service. -/
def serviceValues (p : Primary) : Value :=
  let first := (itemsOf (read p.service "spec.ports")).head?
  let port := (field first "port").getD (.nat 80)
  .mapping [("enabled", .bool p.service.isSome),
    ("type", (read p.service "spec.type").getD (.text "ClusterIP")),
    ("headless", .bool (read p.service "spec.clusterIP" == some (.text "None"))),
    ("port", port), ("targetPort", (field first "targetPort").getD port),
    ("portName", (field first "name").getD (.text "http"))]

/-- What the values say of a path. -/
def pathValue (path : Value) : Value :=
  .mapping [("path", fieldOrNull path "path"), ("pathType", fieldOrNull path "pathType")]

/-- What the values say of a rule. -/
def ruleValue (rule : Value) : Value :=
  .mapping [("host", (rule.field? "host").getD (.text "")),
    ("paths", .list ((fieldOrNull (fieldOrNull rule "http") "paths").items.map pathValue))]

/-- What the values say of an Ingress if there is none. -/
def noIngress : Value :=
  .mapping [("enabled", .bool false), ("className", .text ""), ("annotations", .empty),
    ("hosts", .list [.mapping [("host", .text "chart-example.local"),
      ("paths", .list [.textMap [("path", "/"), ("pathType", "ImplementationSpecific")]])]]),
    ("tls", .list [])]

/-- What the values say of the Ingress. -/
def ingressValues (p : Primary) : Value :=
  match p.ingress with
  | none => noIngress
  | some i =>
    let rules := ((i.record.get? "spec.rules").map Value.items).getD []
    .mapping [("enabled", .bool true),
      ("className", (i.record.get? "spec.ingressClassName").getD (.text "")),
      ("annotations", .textMap i.record.annotations), ("hosts", .list (rules.map ruleValue)),
      ("tls", (i.record.get? "spec.tls").getD (.list []))]

/-- The utilization of a resource at which an autoscaler acts. -/
def utilization (autoscaler : Record) (resource : String) : Option Value :=
  let targets := (((autoscaler.get? "spec.metrics").map Value.items).getD []).map
    (fieldOrNull · "resource")
  (targets.find? fun t => fieldOrNull t "name" == .text resource).map fun t =>
    fieldOrNull (fieldOrNull t "target") "averageUtilization"

/-- What the values say of the autoscaler if there is none. -/
def noAutoscaling : Value :=
  .mapping [("enabled", .bool false), ("minReplicas", .nat 1), ("maxReplicas", .nat 100),
    ("targetCPUUtilizationPercentage", .nat 80)]

/-- What the values say of the autoscaler. -/
def autoscalingValues (p : Primary) : Value :=
  match p.autoscaler with
  | none => noAutoscaling
  | some a =>
    .mapping <|
      [("enabled", .bool true), ("minReplicas", (a.record.get? "spec.minReplicas").getD (.nat 1)),
        ("maxReplicas", (a.record.get? "spec.maxReplicas").getD (.nat 100))] ++
        optionEntry "targetCPUUtilizationPercentage" (utilization a.record "cpu") id ++
        optionEntry "targetMemoryUtilizationPercentage" (utilization a.record "memory") id

/-- The values of the chart before any override. -/
def values (p : Primary) : Value :=
  let w := p.workload
  let (repository, tag) := Image.split w.imageOrDefault
  let r := p.record.record
  .mapping <|
    [("replicaCount", (r.get? "spec.replicas").getD (.nat 1)),
      ("image", .textMap [("repository", repository), ("tag", tag.getD ""),
        ("pullPolicy", w.imagePullPolicy.getD "IfNotPresent")]),
      ("imagePullSecrets", .list []), ("nameOverride", .text ""), ("fullnameOverride", .text ""),
      ("serviceAccount", .mapping [("create", .bool p.account.isSome), ("annotations", .empty),
        ("name", .text (w.serviceAccount.getD ""))]),
      ("podAnnotations", (r.get? "spec.template.metadata.annotations").getD .empty),
      ("service", p.serviceValues), ("ingress", p.ingressValues),
      ("resources", (w.requirements.map Requirements.toValue).getD .empty),
      ("autoscaling", p.autoscalingValues), ("nodeSelector", .textMap w.nodeSelector),
      ("env", .textMap w.env)] ++
      optionEntry "livenessProbe" w.liveness Probe.toValue ++
      optionEntry "readinessProbe" w.readiness Probe.toValue

end Primary

end Rollout.Chart
