import Rollout.Codec.Fields
import Rollout.Failure
import Rollout.Record.Basic
import Rollout.Value.Merge

/-!
# Charts

The metadata of a Helm chart, the charts it depends on, and the values that it overrides.
-/

namespace Rollout

/-- A chart that another one depends on. -/
structure ChartDependency where
  name : String
  version : String
  repository : String
  /-- A disabled one is not installed unless a value turns it on. -/
  enabled : Bool := true
  /-- The paths of the values that turn it on, with commas between them. -/
  condition : Option String := none
deriving DecidableEq

namespace ChartDependency

def codec : Codec ChartDependency :=
  .struct "ChartDependency" <|
    ChartDependency.mk <$> .required "name" (·.name) .text
      <*> .required "version" (·.version) .text
      <*> .required "repository" (·.repository) .text
      <*> .defaulted "enabled" (·.enabled) .bool true
      <*> .optional "condition" (·.condition) .text

/-- The path of the value that turns the dependency on. -/
def conditionPath (d : ChartDependency) : String :=
  match d.condition with
  | some c => Text.trim ((Text.parts ',' c).headD "")
  | none => d.name ++ ".enabled"

/-- The entry of the manifest. -/
def toValue (d : ChartDependency) : Value :=
  .mapping <|
    [("name", .text d.name), ("version", .text d.version), ("repository", .text d.repository)] ++
      if d.condition.isSome || !d.enabled then [("condition", .text d.conditionPath)] else []

end ChartDependency

/-- A Helm chart. -/
structure Chart where
  name : String
  version : Version := ⟨0, 1, 0, "", ""⟩
  appVersion : String := "1.0.0"
  description : String
  dependencies : List ChartDependency := []
  /-- Values that are laid over the derived ones. -/
  overrides : Value := .empty
  /-- Records that have a template of their own. -/
  resources : List Record := []
  /-- What is told after an installation, in place of the usual text. -/
  notes : Option String := none
  tests : Bool := true
  /-- Whether dependencies have a file of their own, as in charts of the first format. -/
  separateRequirements : Bool := false

namespace Chart

/-- A chart without settings. -/
def named (name : String) : Chart := { name, description := s!"A Helm chart for {name}" }

/-- The chart of a definition. The tag of its first image is the version of the
application. -/
def ofDefinition (d : Definition) : Chart :=
  let chart := named d.name
  match d.workloads.head?.bind fun w => (Image.split w.imageOrDefault).2 with
  | some tag => { chart with appVersion := tag }
  | none => chart

def withVersion (c : Chart) (given : String) : Except Failure Chart :=
  match Version.parse given with
  | .ok version => .ok { c with version }
  | .error e => .error (.chartVersion given e)

def addDependency (c : Chart) (d : ChartDependency) : Chart :=
  { c with dependencies := c.dependencies ++ [d] }

/-- Override the value at a path. -/
def set (c : Chart) (path : String) (v : Value) : Except Failure Chart :=
  match Override.set c.overrides path v with
  | .ok overrides => .ok { c with overrides }
  | .error e => .error (.override e)

/-- Lay further values over the overrides. -/
def withValues (c : Chart) (v : Value) : Chart := { c with overrides := c.overrides.merge v }

def addResource (c : Chart) (r : Record) : Chart := { c with resources := c.resources ++ [r] }

/-- The name of the chart as an archive. -/
def archiveName (c : Chart) : String := c.name ++ "-" ++ c.version.text ++ ".tgz"

def dependencyList (c : Chart) : Value := .list (c.dependencies.map ChartDependency.toValue)

/-- The manifest of the chart. -/
def manifest (c : Chart) : Value :=
  .mapping <|
    [("apiVersion", .text (if c.separateRequirements then "v1" else "v2")),
      ("name", .text c.name), ("description", .text c.description),
      ("type", .text "application"), ("version", .text c.version.text),
      ("appVersion", .text c.appVersion)] ++
      if c.dependencies.isEmpty || c.separateRequirements then []
      else [("dependencies", c.dependencyList)]

end Chart

end Rollout
