import Rollout.Meta
import Rollout.Record.Basic
import Rollout.Workload.Container

/-!
# Scaling

How many pods of an application run: a fixed number, or as many as their load asks for
within bounds.
-/

namespace Rollout

/-- Bounds and targets of automatic scaling. Targets are in percent. -/
structure HorizontalScaling where
  minReplicas : Nat
  maxReplicas : Nat
  cpuUtilization : Option Nat := none
  memoryUtilization : Option Nat := none
deriving DecidableEq

def HorizontalScaling.codec : Codec HorizontalScaling :=
  .struct "HorizontalScaling" <|
    HorizontalScaling.mk <$> .required "minReplicas" (·.minReplicas) .nat32
      <*> .required "maxReplicas" (·.maxReplicas) .nat32
      <*> .optional "cpuUtilization" (·.cpuUtilization) .nat32
      <*> .optional "memoryUtilization" (·.memoryUtilization) .nat32

/-- How many pods run. -/
structure Scaling where
  replicas : Nat := 1
  horizontal : Option HorizontalScaling := none
deriving DecidableEq

namespace Scaling

def codec : Codec Scaling :=
  .struct "Scaling" <|
    Scaling.mk <$> .defaulted "replicas" (·.replicas) .nat32 1
      <*> .optional "horizontal" (·.horizontal) HorizontalScaling.codec

/-- A fixed number of pods. -/
def fixed (replicas : Nat) : Scaling := { replicas }

/-- Scale automatically within bounds, aiming at 80 percent of the processor share. -/
def withBounds (s : Scaling) (low high : Nat) : Scaling :=
  { replicas := max s.replicas low
    horizontal := some { minReplicas := low, maxReplicas := high, cpuUtilization := some 80 } }

def withCpuTarget (s : Scaling) (percent : Nat) : Scaling :=
  { s with horizontal := s.horizontal.map fun h => { h with cpuUtilization := some percent } }

def withMemoryTarget (s : Scaling) (percent : Nat) : Scaling :=
  { s with horizontal := s.horizontal.map fun h => { h with memoryUtilization := some percent } }

def isAutomatic (s : Scaling) : Bool := s.horizontal.isSome

/-- A target for the use of a resource. -/
def target (resource : String) (percent : Nat) : Value :=
  .mapping [("type", .text "Resource"), ("resource", .mapping [("name", .text resource),
    ("target", .mapping [("type", .text "Utilization"), ("averageUtilization", .nat percent)])])]

/-- The record by which the Deployment of the same name is scaled. -/
def record? (s : Scaling) (info : Meta) : Option Record :=
  s.horizontal.map fun h =>
    let targets := (h.cpuUtilization.map (target "cpu")).toList ++
      (h.memoryUtilization.map (target "memory")).toList
    ⟨[("apiVersion", .text "autoscaling/v2"), ("kind", .text "HorizontalPodAutoscaler"),
      ("metadata", info.toValue true),
      ("spec", .mapping [("scaleTargetRef", .mapping [("apiVersion", .text "apps/v1"),
          ("kind", .text "Deployment"), ("name", .text info.name)]),
        ("minReplicas", .nat h.minReplicas), ("maxReplicas", .nat h.maxReplicas),
        ("metrics", .list targets)])]⟩

def problems (s : Scaling) (name : String) : List String :=
  match s.horizontal with
  | none => []
  | some h =>
    (if h.minReplicas = 0 then [s!"App '{name}' autoscaling minimum must be at least 1"]
      else []) ++
    (if h.maxReplicas < h.minReplicas then
      [s!"App '{name}' autoscaling maximum {h.maxReplicas} is below minimum {h.minReplicas}"]
    else []) ++
    ((h.cpuUtilization.toList ++ h.memoryUtilization.toList).filter fun t => t = 0 || t > 100).map
      fun t => s!"App '{name}' autoscaling target {t}% is outside 1-100"

end Scaling

end Rollout
