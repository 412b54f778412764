import Rollout.Codec.Tagged

/-!
# Containers

The parts that containers of pods are described by: ports, requirements and probes.
-/

namespace Rollout

/-- The protocol of a port. -/
inductive Protocol where
  | tcp
  | udp
  | sctp
deriving DecidableEq

namespace Protocol

def name : Protocol → String
  | tcp => "TCP"
  | udp => "UDP"
  | sctp => "SCTP"

/-- The name in lower case, as compose writes it. -/
def lowerName : Protocol → String
  | tcp => "tcp"
  | udp => "udp"
  | sctp => "sctp"

def codec : Codec Protocol := .choice [tcp, udp, sctp] name

end Protocol

/-- A port of a container, which compose may publish on another port of the host. -/
structure Port where
  container : Nat
  host : Option Nat := none
  name : Option String := none
  protocol : Protocol := .tcp
deriving DecidableEq

namespace Port

def codec : Codec Port :=
  .struct "Port" <|
    Port.mk <$> .required "container" (·.container) .nat16
      <*> .optional "host" (·.host) .nat16
      <*> .optional "name" (·.name) .text
      <*> .defaulted "protocol" (·.protocol) Protocol.codec .tcp

/-- The name of the port at a place of a list: its own, or one made for the place. -/
def nameAt (p : Port) (place : Nat) : String :=
  p.name.getD (if place = 0 then "http" else s!"port-{p.container}")

/-- How compose publishes the port. -/
def publishing (p : Port) : String :=
  let host := p.host.getD p.container
  let pair := s!"{host}:{p.container}"
  match p.protocol with
  | .tcp => pair
  | other => pair ++ "/" ++ other.lowerName

end Port

/-- What a container asks for and may use at most. -/
structure Requirements where
  cpuRequest : Option String := none
  memoryRequest : Option String := none
  cpuLimit : Option String := none
  memoryLimit : Option String := none
deriving DecidableEq

namespace Requirements

def codec : Codec Requirements :=
  .struct "ResourceRequirements" <|
    Requirements.mk <$> .optional "cpuRequest" (·.cpuRequest) .text
      <*> .optional "memoryRequest" (·.memoryRequest) .text
      <*> .optional "cpuLimit" (·.cpuLimit) .text
      <*> .optional "memoryLimit" (·.memoryLimit) .text

/-- Ask for a processor share and an amount of memory. -/
def requests (cpu memory : String) : Requirements :=
  { cpuRequest := some cpu, memoryRequest := some memory }

/-- Limit the processor share and the amount of memory. -/
def limits (r : Requirements) (cpu memory : String) : Requirements :=
  { r with cpuLimit := some cpu, memoryLimit := some memory }

/-- The entries whose value is given. -/
def given (entries : List (String × Option String)) : Assoc Value :=
  entries.filterMap fun (key, value) => value.map fun v => (key, .text v)

/-- An entry for a mapping that is not empty. -/
def group (key : String) (entries : Assoc Value) : Assoc Value :=
  if entries.isEmpty then [] else [(key, .mapping entries)]

def toValue (r : Requirements) : Value :=
  .mapping <|
    group "requests" (given [("cpu", r.cpuRequest), ("memory", r.memoryRequest)]) ++
      group "limits" (given [("cpu", r.cpuLimit), ("memory", r.memoryLimit)])

end Requirements

/-- What a probe tries. -/
inductive ProbeAction where
  | http (path : String) (port : Nat)
  | exec (command : List String)
  | tcp (port : Nat)
deriving DecidableEq

namespace ProbeAction

def variants : List (Variant ProbeAction) :=
  [ .ofFields "http" "Http" (fun | http path port => some (path, port) | _ => none)
      (http <$> .required "path" (·.1) .text <*> .required "port" (·.2) .nat16),
    .ofFields "exec" "Exec" (fun | exec command => some command | _ => none)
      (exec <$> .required "command" id (.list .text)),
    .ofFields "tcp" "Tcp" (fun | tcp port => some port | _ => none)
      (tcp <$> .required "port" id .nat16) ]

def entry : ProbeAction → String × Value
  | http path port => ("httpGet", .mapping [("path", .text path), ("port", .nat port)])
  | exec command => ("exec", .mapping [("command", .texts command)])
  | tcp port => ("tcpSocket", .mapping [("port", .nat port)])

end ProbeAction

/-- A check that a container is alive or ready. -/
structure Probe where
  action : ProbeAction
  initialDelay : Nat := 10
  period : Nat := 10
  timeout : Nat := 5
  failureThreshold : Nat := 3
deriving DecidableEq

namespace Probe

def codec : Codec Probe :=
  .mapping "Probe" <|
    Probe.mk <$> .taggedPart (·.action) "type" ProbeAction.variants
      <*> .defaulted "initialDelay" (·.initialDelay) .nat32 10
      <*> .defaulted "period" (·.period) .nat32 10
      <*> .defaulted "timeout" (·.timeout) .nat32 5
      <*> .defaulted "failureThreshold" (·.failureThreshold) .nat32 3

def http (path : String) (port : Nat) : Probe := { action := .http path port }

def exec (command : List String) : Probe := { action := .exec command }

def tcp (port : Nat) : Probe := { action := .tcp port }

def withInitialDelay (p : Probe) (seconds : Nat) : Probe := { p with initialDelay := seconds }

def withPeriod (p : Probe) (seconds : Nat) : Probe := { p with period := seconds }

def toValue (p : Probe) : Value :=
  .mapping [p.action.entry, ("initialDelaySeconds", .nat p.initialDelay),
    ("periodSeconds", .nat p.period), ("timeoutSeconds", .nat p.timeout),
    ("failureThreshold", .nat p.failureThreshold)]

end Probe

/-- The variables of a container, in order. -/
def environmentList (env : Assoc String) : Value :=
  .list (env.map fun (name, value) => .mapping [("name", .text name), ("value", .text value)])

/-- An entry that is left out if its list is empty. -/
def listEntry (key : String) (items : List Value) : Assoc Value :=
  if items.isEmpty then [] else [(key, .list items)]

/-- An entry that is left out if its list of texts is empty. -/
def textsEntry (key : String) (items : List String) : Assoc Value := listEntry key (items.map .text)

/-- An entry that is left out if there is no value for it. -/
def optionEntry {α : Type} (key : String) (value : Option α) (f : α → Value) : Assoc Value :=
  match value with
  | some a => [(key, f a)]
  | none => []

/-- The variables of a container as an entry, left out if there are none. -/
def environmentEntry (env : Assoc String) : Assoc Value :=
  if env.isEmpty then [] else [("env", environmentList env)]

end Rollout
