import Rollout.Access.Namespace
import Rollout.App.Stateful
import Rollout.App.Stateless
import Rollout.Custom.Resource
import Rollout.Network.Policy
import Rollout.Record.Order

/-!
# Definitions

A definition describes one unit: an application, a Secret, a job and so on, or a group of
such units. From it follow the records that make it up, the workloads that it runs, what
is wrong with it, and what each format of output makes nothing of.
-/

namespace Rollout

/-! ### Output formats -/

/-- A format of output. -/
inductive Format where
  | kubernetes
  | compose
  | helm
  | kustomize
  | terraform
deriving DecidableEq

namespace Format

def name : Format → String
  | kubernetes => "kubernetes"
  | compose => "compose"
  | helm => "helm"
  | kustomize => "kustomize"
  | terraform => "terraform"

/-- All formats. -/
def all : List Format := [kubernetes, compose, helm, kustomize, terraform]

def codec : Codec Format := .choice all name

/-- The format that a text names, whatever the case of its letters. -/
def parse? (s : String) : Option Format :=
  match s.toLower with
  | "kubernetes" | "k8s" | "yaml" => some kubernetes
  | "compose" | "docker-compose" => some compose
  | "helm" | "chart" => some helm
  | "kustomize" => some kustomize
  | "terraform" | "tf" => some terraform
  | _ => none

end Format

/-! ### Definitions of units -/

/-- The description of one unit. -/
inductive Definition where
  | app (a : App)
  | statefulApp (a : StatefulApp)
  | configMap (c : ConfigMap)
  | secret (s : Secret)
  | job (j : Job)
  | cronJob (j : CronJob)
  | service (s : Service)
  | ingress (i : Ingress)
  | networkPolicy (p : NetworkPolicy)
  | serviceAccount (a : ServiceAccount)
  | role (scope : RoleScope) (r : Role)
  | binding (scope : RoleScope) (b : Binding)
  | customResource (c : CustomResource)
  | ofNamespace (n : NamespaceDefinition)
  /-- Several units rendered as one, with a record for their namespace if it is asked for. -/
  | group (info : Meta) (members : List Definition) (createNamespace : Bool)

namespace Definition

instance : Inhabited Definition := ⟨.app (.named "")⟩

/-- The name of the type of a definition. -/
def typeName : Definition → String
  | app _ => "App"
  | statefulApp _ => "StatefulApp"
  | configMap _ => "ConfigMap"
  | secret _ => "Secret"
  | job _ => "Job"
  | cronJob _ => "CronJob"
  | service _ => "Service"
  | ingress _ => "Ingress"
  | networkPolicy _ => "NetworkPolicy"
  | serviceAccount _ => "ServiceAccount"
  | role scope _ => scope.roleKind
  | binding scope _ => scope.bindingKind
  | customResource _ => "CustomResource"
  | ofNamespace _ => "Namespace"
  | group .. => "AppGroup"

/-- Its name, namespace, labels and annotations. -/
def info : Definition → Meta
  | app a => a.info
  | statefulApp a => a.info
  | configMap c => c.info
  | secret s => s.info
  | job j => j.info
  | cronJob j => j.info
  | service s => s.info
  | ingress i => i.info
  | networkPolicy p => p.info
  | serviceAccount a => a.info
  | role _ r => r.info
  | binding _ b => b.info
  | customResource c => c.info
  | ofNamespace n => n.info
  | group info .. => info

def name (d : Definition) : String := d.info.name

/-- The namespace that it lives in. A namespace lives in itself. -/
def ns : Definition → String
  | ofNamespace n => n.info.name
  | d => d.info.ns

/-- Change its name, namespace, labels or annotations. -/
def mapInfo (f : Meta → Meta) : Definition → Definition
  | app a => app (a.mapInfo f)
  | statefulApp a => statefulApp (a.mapInfo f)
  | configMap c => configMap (c.mapInfo f)
  | secret s => secret (s.mapInfo f)
  | job j => job (j.mapInfo f)
  | cronJob j => cronJob (j.mapInfo f)
  | service s => service (s.mapInfo f)
  | ingress i => ingress (i.mapInfo f)
  | networkPolicy p => networkPolicy (p.mapInfo f)
  | serviceAccount a => serviceAccount (a.mapInfo f)
  | role scope r => role scope (r.mapInfo f)
  | binding scope b => binding scope (b.mapInfo f)
  | customResource c => customResource (c.mapInfo f)
  | ofNamespace n => ofNamespace (n.mapInfo f)
  | group info members create => group (f info) members create

/-- A group without members. -/
def groupNamed (name : String) : Definition := group { name } [] false

/-- The labels that a record of a member gains: that of the group, and the group's own. -/
def labelMember (info : Meta) (r : Record) : Record :=
  info.labels.foldl (fun r (k, v) => r.insertLabel k v) (r.insertLabel Label.partOf info.name)

/-- The record for the namespace of a group. -/
def namespaceRecords (info : Meta) (create : Bool) : List Record :=
  if create then (NamespaceDefinition.named info.ns).records else []

/-- The records of a group whose members have some records. -/
def groupRecords (info : Meta) (create : Bool) (members : List Record) : List Record :=
  Record.distinct ((namespaceRecords info create ++ members).map (labelMember info))

mutual

/-- The records that make up a definition. -/
def records (files : FileTree) : Definition → Except SourceError (List Record)
  | app a => a.records files
  | statefulApp a => a.records files
  | configMap c => c.records files
  | secret s => s.records files
  | job j => .ok j.records
  | cronJob j => .ok j.records
  | service s => .ok s.records
  | ingress i => .ok i.records
  | networkPolicy p => .ok p.records
  | serviceAccount a => .ok a.records
  | role scope r => .ok (r.records scope)
  | binding scope b => .ok (b.records scope)
  | customResource c => .ok c.records
  | ofNamespace n => .ok n.records
  | group info members create =>
    match memberRecords files members with
    | .ok rs => .ok (groupRecords info create rs)
    | .error e => .error e

/-- The records of several definitions, one after the other. -/
def memberRecords (files : FileTree) : List Definition → Except SourceError (List Record)
  | [] => .ok []
  | d :: ds =>
    match records files d with
    | .error e => .error e
    | .ok rs =>
      match memberRecords files ds with
      | .error e => .error e
      | .ok more => .ok (rs ++ more)

end

mutual

/-- The workloads that a definition runs. -/
def workloads : Definition → List Workload
  | app a => [a.workload]
  | statefulApp a => [a.workload]
  | group _ members _ => memberWorkloads members
  | _ => []

/-- The workloads of several definitions. -/
def memberWorkloads : List Definition → List Workload
  | [] => []
  | d :: ds => workloads d ++ memberWorkloads ds

end

mutual

/-- What is wrong with a definition. -/
def problems (files : FileTree) : Definition → List String
  | app a => a.problems files
  | statefulApp a => a.problems files
  | configMap c => c.problems files
  | secret s => s.problems files
  | job j => j.problems
  | cronJob j => j.problems
  | service s => s.problems
  | ingress i => i.problems
  | networkPolicy p => p.problems
  | serviceAccount a => a.problems
  | role scope r => r.problems scope
  | binding scope b => b.problems scope
  | customResource c => c.problems
  | ofNamespace n => n.problems
  | group info members _ =>
    let name := info.name
    info.problems "AppGroup" ++
      (if members.isEmpty then [s!"AppGroup '{name}' has no members"] else []) ++
      memberProblems files name [] members

/-- What is wrong with the members of a group, given the types and names of those before. -/
def memberProblems (files : FileTree) (groupName : String) (seen : List (String × String)) :
    List Definition → List String
  | [] => []
  | d :: ds =>
    let typeName := d.typeName
    let name := d.name
    (if seen.contains (typeName, name) then
      [s!"AppGroup '{groupName}' contains {typeName} '{name}' more than once"]
    else []) ++
      problems files d ++ memberProblems files groupName ((typeName, name) :: seen) ds

end

/-- Whether a format makes anything of a definition. -/
def supports (d : Definition) (format : Format) : Bool :=
  format != .compose || !d.workloads.isEmpty

/-- What compose says of a kind that it has nothing like. -/
def skippedNote (kind name : String) : String :=
  s!"{kind} '{name}' has no compose equivalent and is skipped"

mutual

/-- What a format makes nothing of. -/
def notes (format : Format) : Definition → List String
  | app a => if format = .compose then a.composeNotes else a.clusterNotes
  | statefulApp a => if format = .compose then a.composeNotes else a.clusterNotes
  | configMap _ => []
  | service _ => []
  | secret s => if format = .compose then s.composeNotes else []
  | ingress i =>
    let name := i.info.name
    if format = .compose then
      [s!"Ingress '{name}' has no compose equivalent; publish ports instead"]
    else []
  | customResource c => if format = .compose then [skippedNote "CustomResource" c.kind] else []
  | group _ members _ => memberNotes format members
  | d => if format = .compose then [skippedNote d.typeName d.name] else []

/-- What a format makes nothing of in several definitions. -/
def memberNotes (format : Format) : List Definition → List String
  | [] => []
  | d :: ds => notes format d ++ memberNotes format ds

end

end Definition

end Rollout
