import Rollout.Meta
import Rollout.Record.Basic
import Rollout.Workload.Container

/-!
# Namespaces

A namespace, with limits for all of it and for containers that declare none.
-/

namespace Rollout

/-- A namespace. -/
structure NamespaceDefinition where
  info : Meta
  quota : Option Requirements := none
  defaultLimits : Option Requirements := none
deriving DecidableEq

namespace NamespaceDefinition

/-- A namespace without limits. It counts as living in itself. -/
def named (name : String) : NamespaceDefinition := { info := { name, ns := name } }

def codec : Codec NamespaceDefinition :=
  .mapping "Namespace" <|
    NamespaceDefinition.mk <$> .part (·.info) Meta.fields
      <*> .optional "quota" (·.quota) Requirements.codec
      <*> .optional "defaultLimits" (·.defaultLimits) Requirements.codec

def mapInfo (n : NamespaceDefinition) (f : Meta → Meta) : NamespaceDefinition :=
  { n with info := f n.info }

/-- The record of the limits for the whole namespace. -/
def quotaRecord (info : Meta) (quota : Requirements) : Record :=
  ⟨[("apiVersion", .text "v1"), ("kind", .text "ResourceQuota"),
    ("metadata", info.toValueNamed (info.name ++ "-quota") true),
    ("spec", .mapping [("hard", .mapping <|
      Requirements.given [("requests.cpu", quota.cpuRequest),
        ("requests.memory", quota.memoryRequest), ("limits.cpu", quota.cpuLimit),
        ("limits.memory", quota.memoryLimit)])])]⟩

/-- The record of the limits for containers that declare none. -/
def limitsRecord (info : Meta) (limits : Requirements) : Record :=
  let entry := [("type", .text "Container")] ++
    Requirements.group "defaultRequest"
      (Requirements.given [("cpu", limits.cpuRequest), ("memory", limits.memoryRequest)]) ++
    Requirements.group "default"
      (Requirements.given [("cpu", limits.cpuLimit), ("memory", limits.memoryLimit)])
  ⟨[("apiVersion", .text "v1"), ("kind", .text "LimitRange"),
    ("metadata", info.toValueNamed (info.name ++ "-limits") true),
    ("spec", .mapping [("limits", .list [.mapping entry])])]⟩

def records (n : NamespaceDefinition) : List Record :=
  let inside := n.info.withNamespace n.info.name
  [⟨[("apiVersion", .text "v1"), ("kind", .text "Namespace"),
      ("metadata", n.info.toValue false)]⟩] ++
    (n.quota.map (quotaRecord inside)).toList ++ (n.defaultLimits.map (limitsRecord inside)).toList

def problems (n : NamespaceDefinition) : List String :=
  let name := n.info.name
  n.info.problems "Namespace" ++
    if Text.startsWith name "kube-" then [s!"Namespace '{name}' uses the reserved 'kube-' prefix"]
    else []

end NamespaceDefinition

end Rollout
