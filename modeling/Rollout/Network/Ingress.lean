import Rollout.Meta
import Rollout.Record.Basic
import Rollout.Workload.Container

/-!
# Ingresses

An Ingress routes hosts and paths to ports of Services. A path without a backend is
routed to the Service of the application that the Ingress is attached to.
-/

namespace Rollout

/-- How a path is compared with that of a request. -/
inductive PathType where
  | prefixed
  | exact
  | implementationSpecific
deriving DecidableEq

namespace PathType

def name : PathType → String
  | prefixed => "Prefix"
  | exact => "Exact"
  | implementationSpecific => "ImplementationSpecific"

def codec : Codec PathType := .choice [prefixed, exact, implementationSpecific] name

end PathType

/-- A path and its backend. An empty name or the port zero stands for no backend. -/
structure IngressPath where
  path : String
  pathType : PathType := .prefixed
  service : String := ""
  port : Nat := 0
deriving DecidableEq

namespace IngressPath

def codec : Codec IngressPath :=
  .struct "IngressPath" <|
    IngressPath.mk <$> .required "path" (·.path) .text
      <*> .defaulted "pathType" (·.pathType) PathType.codec .prefixed
      <*> .defaulted "service" (·.service) .text ""
      <*> .defaulted "port" (·.port) .nat16 0

def toValue (p : IngressPath) : Value :=
  .mapping [("path", .text p.path), ("pathType", .text p.pathType.name),
    ("backend", .mapping [("service", .mapping [("name", .text p.service),
      ("port", .mapping [("number", .nat p.port)])])])]

/-- Fill in what the backend lacks. -/
def withDefaultBackend (p : IngressPath) (service : String) (port : Nat) : IngressPath :=
  { p with
    service := if p.service.isEmpty then service else p.service
    port := if p.port = 0 then port else p.port }

end IngressPath

/-- The paths of one host, or of all hosts. -/
structure IngressRule where
  host : Option String := none
  paths : List IngressPath
deriving DecidableEq

namespace IngressRule

def codec : Codec IngressRule :=
  .struct "IngressRule" <|
    IngressRule.mk <$> .optional "host" (·.host) .text
      <*> .required "paths" (·.paths) (.list IngressPath.codec)

def toValue (r : IngressRule) : Value :=
  .mapping <|
    optionEntry "host" r.host .text ++
      [("http", .mapping [("paths", .list (r.paths.map IngressPath.toValue))])]

/-- Add a path to the rule of a host, which is made if there is none. -/
def insertPath (host : String) (path : IngressPath) : List IngressRule → List IngressRule
  | [] => [{ host := some host, paths := [path] }]
  | r :: rest =>
    if r.host = some host then { r with paths := r.paths ++ [path] } :: rest
    else r :: insertPath host path rest

end IngressRule

/-- The certificate for some hosts. -/
structure IngressTls where
  hosts : List String
  secretName : String
deriving DecidableEq

namespace IngressTls

def codec : Codec IngressTls :=
  .struct "IngressTls" <|
    IngressTls.mk <$> .required "hosts" (·.hosts) (.list .text)
      <*> .required "secretName" (·.secretName) .text

def toValue (t : IngressTls) : Value :=
  .mapping [("hosts", .texts t.hosts), ("secretName", .text t.secretName)]

end IngressTls

/-- Routes from hosts and paths to Services. -/
structure Ingress where
  info : Meta
  className : Option String := none
  rules : List IngressRule := []
  tls : List IngressTls := []
deriving DecidableEq

namespace Ingress

/-- An Ingress without routes. -/
def named (name : String) : Ingress := { info := { name } }

def codec : Codec Ingress :=
  .mapping "Ingress" <|
    Ingress.mk <$> .part (·.info) Meta.fields
      <*> .optional "className" (·.className) .text
      <*> .items "rules" (·.rules) IngressRule.codec
      <*> .items "tls" (·.tls) IngressTls.codec

def mapInfo (i : Ingress) (f : Meta → Meta) : Ingress := { i with info := f i.info }

def withClassName (i : Ingress) (name : String) : Ingress := { i with className := some name }

/-- Route a host and a path to a port of a Service. -/
def route (i : Ingress) (host path service : String) (port : Nat) : Ingress :=
  { i with rules := IngressRule.insertPath host { path, service, port } i.rules }

/-- Route all paths of a host to the application that the Ingress is attached to. -/
def withHost (i : Ingress) (host : String) : Ingress := i.route host "/" "" 0

def addRule (i : Ingress) (rule : IngressRule) : Ingress := { i with rules := i.rules ++ [rule] }

/-- Serve hosts with the certificate in a Secret. -/
def withTls (i : Ingress) (hosts : List String) (secretName : String) : Ingress :=
  { i with tls := i.tls ++ [{ hosts, secretName }] }

/-- The hosts of all rules, in order. -/
def hosts (i : Ingress) : List String := i.rules.filterMap (·.host)

/-- Fill in the backends that are missing. -/
def withDefaultBackend (i : Ingress) (service : String) (port : Nat) : Ingress :=
  { i with
    rules := i.rules.map fun r =>
      { r with paths := r.paths.map fun p => p.withDefaultBackend service port } }

def records (i : Ingress) : List Record :=
  [⟨[("apiVersion", .text "networking.k8s.io/v1"), ("kind", .text "Ingress"),
    ("metadata", i.info.toValue true),
    ("spec", .mapping <|
      optionEntry "ingressClassName" i.className .text ++
        listEntry "tls" (i.tls.map IngressTls.toValue) ++
        [("rules", .list (i.rules.map IngressRule.toValue))])]⟩]

def hostProblems (name : String) (host : Option String) : List String :=
  match host with
  | none => []
  | some host =>
    if Name.isValidQualified ((Text.dropStart? "*." host).getD host) then []
    else [s!"Ingress '{name}' has invalid host '{host}'"]

def pathProblems (name : String) (p : IngressPath) : List String :=
  (if Text.startsWith p.path "/" then []
    else [s!"Ingress '{name}' path '{p.path}' must start with '/'"]) ++
  if p.service.isEmpty then [s!"Ingress '{name}' path '{p.path}' has no backend service"] else []

def problems (i : Ingress) : List String :=
  let name := i.info.name
  i.info.problems "Ingress" ++
    (if i.rules.isEmpty then [s!"Ingress '{name}' has no rules"] else []) ++
    i.rules.flatMap fun r => hostProblems name r.host ++ r.paths.flatMap (pathProblems name)

end Ingress

end Rollout
