import Rollout.Codec.Tagged
import Rollout.Name

/-!
# Patches

A patch changes one object of the base: either by a list of operations on paths, or by a
document of the same shape that is merged into it.
-/

namespace Rollout

/-- The object that a patch changes. -/
structure PatchTarget where
  group : String := ""
  version : String := "v1"
  kind : String
  name : String
deriving DecidableEq

namespace PatchTarget

def codec : Codec PatchTarget :=
  .struct "PatchTarget" <|
    PatchTarget.mk <$> .elided "group" (·.group) .text "" String.isEmpty
      <*> .defaulted "version" (·.version) .text "v1"
      <*> .required "kind" (·.kind) .text
      <*> .required "name" (·.name) .text

/-- The group and the version of a well-known kind. -/
def groupVersion (kind : String) : String × String :=
  match kind with
  | "Deployment" | "StatefulSet" | "DaemonSet" | "ReplicaSet" => ("apps", "v1")
  | "Job" | "CronJob" => ("batch", "v1")
  | "HorizontalPodAutoscaler" => ("autoscaling", "v2")
  | "Ingress" | "NetworkPolicy" => ("networking.k8s.io", "v1")
  | "Role" | "RoleBinding" | "ClusterRole" | "ClusterRoleBinding" =>
    ("rbac.authorization.k8s.io", "v1")
  | "CustomResourceDefinition" => ("apiextensions.k8s.io", "v1")
  | _ => ("", "v1")

/-- The object of a well-known kind with a name. -/
def ofKind (kind name : String) : PatchTarget :=
  let (group, version) := groupVersion kind
  { group, version, kind, name }

def apiVersion (t : PatchTarget) : String :=
  if t.group.isEmpty then t.version else t.group ++ "/" ++ t.version

end PatchTarget

/-- An operation on a path of an object. -/
structure PatchOperation where
  op : String
  path : String
  value : Option Value := none
deriving DecidableEq

namespace PatchOperation

def codec : Codec PatchOperation :=
  .struct "PatchOp" <|
    PatchOperation.mk <$> .required "op" (·.op) .text
      <*> .required "path" (·.path) .text
      <*> .optional "value" (·.value) .any

def replace (path : String) (value : Value) : PatchOperation := ⟨"replace", path, some value⟩

def add (path : String) (value : Value) : PatchOperation := ⟨"add", path, some value⟩

def remove (path : String) : PatchOperation := ⟨"remove", path, none⟩

end PatchOperation

/-- A change of one object. -/
inductive Patch where
  | operations (target : PatchTarget) (ops : List PatchOperation)
  | merging (target : PatchTarget) (document : Value)
deriving DecidableEq

namespace Patch

def variants : List (Variant Patch) :=
  [ .ofFields "json" "Json" (fun | operations target ops => some (target, ops) | _ => none)
      (operations <$> .required "target" (·.1) PatchTarget.codec
        <*> .required "ops" (·.2) (.list PatchOperation.codec)),
    .ofFields "strategicMerge" "StrategicMerge"
      (fun | merging target document => some (target, document) | _ => none)
      (merging <$> .required "target" (·.1) PatchTarget.codec
        <*> .required "document" (·.2) .any) ]

def codec : Codec Patch := .tagged "Patch" "type" variants

def target : Patch → PatchTarget
  | operations target _ | merging target _ => target

/-- The name of the file for the patch at a place of a list. -/
def fileName (p : Patch) (place : Nat) : String :=
  s!"patch-{place + 1}-" ++ p.target.kind.toLower ++ "-" ++ Name.fileName p.target.name ++ ".yaml"

/-- The keys of a document that tell which object it changes. -/
def identityKeys : List String := ["apiVersion", "kind", "metadata"]

/-- The content of the file. A document to merge tells the object that it changes by the
identity of the target. -/
def document : Patch → Value
  | operations _ ops => .list (ops.map PatchOperation.codec.encode)
  | merging target document =>
    .mapping <|
      [("apiVersion", .text target.apiVersion), ("kind", .text target.kind),
        ("metadata", .mapping [("name", .text target.name)])] ++
        document.entries.filter fun (key, _) => !identityKeys.contains key

end Patch

end Rollout
