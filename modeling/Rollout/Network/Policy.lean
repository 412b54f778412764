import Rollout.Meta
import Rollout.Record.Basic
import Rollout.Workload.Container

/-!
# Network policies

Which traffic pods may receive and send. A policy restricts a direction once it names it,
and then allows what its rules for that direction list.
-/

namespace Rollout

/-- A direction of traffic. -/
inductive PolicyType where
  | ingress
  | egress
deriving DecidableEq

namespace PolicyType

def name : PolicyType → String
  | ingress => "Ingress"
  | egress => "Egress"

/-- The key under which rules of the direction list the other side. -/
def peerKey : PolicyType → String
  | ingress => "from"
  | egress => "to"

def codec : Codec PolicyType := .choice [ingress, egress] name

end PolicyType

/-- The other side of traffic. -/
inductive Peer where
  /-- Pods of the same namespace. -/
  | pods (labels : Assoc String)
  /-- All pods of some namespaces. -/
  | namespaces (labels : Assoc String)
  /-- A block of addresses without some parts of it. -/
  | cidr (block : String) (except : List String)
deriving DecidableEq

namespace Peer

def variants : List (Variant Peer) :=
  [ .ofFields "pods" "Pods" (fun | pods labels => some labels | _ => none)
      (pods <$> .required "labels" id (.sorted .text)),
    .ofFields "namespaces" "Namespaces" (fun | namespaces labels => some labels | _ => none)
      (namespaces <$> .required "labels" id (.sorted .text)),
    .ofFields "cidr" "Cidr" (fun | cidr block except => some (block, except) | _ => none)
      (cidr <$> .required "cidr" (·.1) .text <*> .items "except" (·.2) .text) ]

def codec : Codec Peer := .tagged "Peer" "type" variants

/-- The pods of an application. -/
def app (name : String) : Peer := pods [(Label.app, name)]

/-- The pods of a namespace. -/
def inNamespace (name : String) : Peer := namespaces [("kubernetes.io/metadata.name", name)]

/-- A block of addresses. -/
def addresses (block : String) : Peer := cidr block []

def toValue : Peer → Value
  | pods labels => .mapping [("podSelector", .mapping [("matchLabels", .textMap labels)])]
  | namespaces labels =>
    .mapping [("namespaceSelector", .mapping [("matchLabels", .textMap labels)])]
  | cidr block except =>
    .mapping [("ipBlock", .mapping (("cidr", .text block) :: textsEntry "except" except))]

end Peer

/-- Traffic that is allowed: with any of the peers on any of the ports. -/
structure TrafficRule where
  peers : List Peer := []
  ports : List (Nat × Protocol) := []
deriving DecidableEq

namespace TrafficRule

def codec : Codec TrafficRule :=
  .struct "TrafficRule" <|
    TrafficRule.mk <$> .items "peers" (·.peers) Peer.codec
      <*> .items "ports" (·.ports) (.pair .nat16 Protocol.codec)

def toValue (direction : PolicyType) (r : TrafficRule) : Value :=
  .mapping <|
    listEntry direction.peerKey (r.peers.map Peer.toValue) ++
      listEntry "ports" (r.ports.map fun (port, protocol) =>
        .mapping [("port", .nat port), ("protocol", .text protocol.name)])

end TrafficRule

/-- Which traffic some pods may receive and send. -/
structure NetworkPolicy where
  info : Meta
  podSelector : Assoc String := []
  ingress : List TrafficRule := []
  egress : List TrafficRule := []
  policyTypes : List PolicyType := []
deriving DecidableEq

namespace NetworkPolicy

/-- A policy for all pods of the namespace that restricts nothing. -/
def named (name : String) : NetworkPolicy := { info := { name } }

def codec : Codec NetworkPolicy :=
  .mapping "NetworkPolicy" <|
    NetworkPolicy.mk <$> .part (·.info) Meta.fields
      <*> .sortedMap "podSelector" (·.podSelector) .text
      <*> .items "ingress" (·.ingress) TrafficRule.codec
      <*> .items "egress" (·.egress) TrafficRule.codec
      <*> .items "policyTypes" (·.policyTypes) PolicyType.codec

def mapInfo (p : NetworkPolicy) (f : Meta → Meta) : NetworkPolicy := { p with info := f p.info }

/-- Restrict the pods with a further label only. -/
def withPodLabel (p : NetworkPolicy) (key value : String) : NetworkPolicy :=
  { p with podSelector := p.podSelector.insertSorted key value }

/-- Restrict the pods of an application only. -/
def forApp (p : NetworkPolicy) (name : String) : NetworkPolicy := p.withPodLabel Label.app name

/-- Restrict a direction, naming it once. -/
def restrict (p : NetworkPolicy) (direction : PolicyType) : NetworkPolicy :=
  if p.policyTypes.contains direction then p
  else { p with policyTypes := p.policyTypes ++ [direction] }

/-- Restrict a direction and allow some traffic in it. -/
def allow (p : NetworkPolicy) (direction : PolicyType) (rule : TrafficRule) : NetworkPolicy :=
  let p :=
    match direction with
    | .ingress => { p with ingress := p.ingress ++ [rule] }
    | .egress => { p with egress := p.egress ++ [rule] }
  p.restrict direction

def allowFrom (p : NetworkPolicy) (peer : Peer) (port : Nat) : NetworkPolicy :=
  p.allow .ingress { peers := [peer], ports := [(port, .tcp)] }

def allowTo (p : NetworkPolicy) (peer : Peer) (port : Nat) : NetworkPolicy :=
  p.allow .egress { peers := [peer], ports := [(port, .tcp)] }

/-- Allow the look-up of names in the cluster. -/
def allowDns (p : NetworkPolicy) : NetworkPolicy :=
  p.allow .egress
    { peers := [.inNamespace "kube-system"], ports := [(53, .udp), (53, .tcp)] }

/-- The rules of a direction. -/
def rules (p : NetworkPolicy) : PolicyType → List TrafficRule
  | .ingress => p.ingress
  | .egress => p.egress

/-- The rules of a direction in a record, if the policy restricts it. -/
def rulesEntry (p : NetworkPolicy) (direction : PolicyType) (key : String) : Assoc Value :=
  if p.policyTypes.contains direction then
    [(key, .list ((p.rules direction).map (TrafficRule.toValue direction)))]
  else []

def records (p : NetworkPolicy) : List Record :=
  [⟨[("apiVersion", .text "networking.k8s.io/v1"), ("kind", .text "NetworkPolicy"),
    ("metadata", p.info.toValue true),
    ("spec", .mapping <|
      [("podSelector", .mapping [("matchLabels", .textMap p.podSelector)]),
        ("policyTypes", .texts (p.policyTypes.map PolicyType.name))] ++
        p.rulesEntry .ingress "ingress" ++ p.rulesEntry .egress "egress")]⟩]

def problems (p : NetworkPolicy) : List String :=
  let name := p.info.name
  p.info.problems "NetworkPolicy" ++
    if p.policyTypes.isEmpty then
      [s!"NetworkPolicy '{name}' has no rules and restricts nothing"]
    else []

end NetworkPolicy

end Rollout
