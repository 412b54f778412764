import Rollout.Meta
import Rollout.Record.Basic
import Rollout.Workload.Container

/-!
# Services

A Service gives pods, found by their labels, one address and a list of ports.
-/

namespace Rollout

/-- How a Service is reached. -/
inductive ServiceType where
  | clusterIP
  | nodePort
  | loadBalancer
  /-- Not at all: each pod has an address of its own. -/
  | headless
deriving DecidableEq

namespace ServiceType

def name : ServiceType → String
  | clusterIP => "ClusterIP"
  | nodePort => "NodePort"
  | loadBalancer => "LoadBalancer"
  | headless => "Headless"

def codec : Codec ServiceType := .choice [clusterIP, nodePort, loadBalancer, headless] name

/-- The entry of a record that tells the type. -/
def entry : ServiceType → String × Value
  | headless => ("clusterIP", .text "None")
  | other => ("type", .text other.name)

end ServiceType

/-- A port of a Service and the port of the pods that it leads to. -/
structure ServicePort where
  port : Nat
  targetPort : Nat
  name : Option String := none
  nodePort : Option Nat := none
  protocol : Protocol := .tcp
deriving DecidableEq

namespace ServicePort

def codec : Codec ServicePort :=
  .struct "ServicePort" <|
    ServicePort.mk <$> .required "port" (·.port) .nat16
      <*> .required "targetPort" (·.targetPort) .nat16
      <*> .optional "name" (·.name) .text
      <*> .optional "nodePort" (·.nodePort) .nat16
      <*> .defaulted "protocol" (·.protocol) Protocol.codec .tcp

/-- The name of the port at a place of a list: its own, or one made for the place. -/
def nameAt (p : ServicePort) (place : Nat) : String :=
  p.name.getD (if place = 0 then "http" else s!"port-{p.port}")

/-- The port at a place of a list, in a record. -/
def toValueAt (p : ServicePort) (place : Nat) : Value :=
  .mapping <|
    [("name", .text (p.nameAt place)), ("port", .nat p.port), ("targetPort", .nat p.targetPort),
      ("protocol", .text p.protocol.name)] ++
      optionEntry "nodePort" p.nodePort .nat

end ServicePort

/-- A Service for pods that are defined elsewhere. -/
structure Service where
  info : Meta
  serviceType : ServiceType := .clusterIP
  ports : List ServicePort := []
  selector : Assoc String := []
  sessionAffinity : Option String := none
deriving DecidableEq

namespace Service

/-- A Service for the pods of an application with the same name. -/
def named (name : String) : Service := { info := { name }, selector := [(Label.app, name)] }

def codec : Codec Service :=
  .mapping "Service" <|
    Service.mk <$> .part (·.info) Meta.fields
      <*> .defaulted "serviceType" (·.serviceType) ServiceType.codec .clusterIP
      <*> .items "ports" (·.ports) ServicePort.codec
      <*> .sortedMap "selector" (·.selector) .text
      <*> .optional "sessionAffinity" (·.sessionAffinity) .text

def mapInfo (s : Service) (f : Meta → Meta) : Service := { s with info := f s.info }

def withType (s : Service) (serviceType : ServiceType) : Service := { s with serviceType }

def addPort (s : Service) (port : ServicePort) : Service := { s with ports := s.ports ++ [port] }

def withPort (s : Service) (port : Nat) : Service := s.addPort { port, targetPort := port }

def withPortMapping (s : Service) (port targetPort : Nat) : Service :=
  s.addPort { port, targetPort }

/-- Find pods by other labels than those found so far. -/
def withSelector (s : Service) (labels : List (String × String)) : Service :=
  { s with selector := Assoc.sorted labels }

def withSessionAffinity (s : Service) (affinity : String) : Service :=
  { s with sessionAffinity := some affinity }

def spec (s : Service) : Value :=
  .mapping <|
    [s.serviceType.entry, ("selector", .textMap s.selector),
      ("ports", .list (s.ports.mapIdx fun i p => p.toValueAt i))] ++
      optionEntry "sessionAffinity" s.sessionAffinity .text

def records (s : Service) : List Record :=
  [⟨[("apiVersion", .text "v1"), ("kind", .text "Service"), ("metadata", s.info.toValue true),
    ("spec", s.spec)]⟩]

def problems (s : Service) : List String :=
  let name := s.info.name
  s.info.problems "Service" ++
    (if s.ports.isEmpty && s.serviceType != .headless then [s!"Service '{name}' exposes no ports"]
      else []) ++
    (if s.selector.isEmpty then [s!"Service '{name}' has an empty selector"] else []) ++
    (s.ports.filter fun p => p.nodePort.isSome && s.serviceType != .nodePort).map
      fun p => s!"Service '{name}' sets nodePort {p.port} on a non-NodePort service"

end Service

end Rollout
