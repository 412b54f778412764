import Rollout.Project.File
import Rollout.Rendering

/-!
# Projects

A project is a definition file whose definitions have been read. A single definition
stands for itself; several ones form a group with the name of the project. The settings
in the file decide what is rendered, and how.
-/

namespace Rollout

/-- Why nothing can be made of a definition file. -/
inductive ProjectError where
  /-- The file cannot be read. -/
  | inaccessible
  /-- The file is not YAML, or not of the expected shape. -/
  | malformed
  | noDefinitions
  /-- The type of a definition is not known. -/
  | unknownType (given : String) (known : List String) (suggestion : Option String)
  /-- Anything else fails. -/
  | failed (failure : Failure)

/-- What is wrong, in words, and what helps. Only faults that the file shows at a glance
have them. -/
def ProjectError.advice? : ProjectError → Option (String × String)
  | noDefinitions =>
    some ("no builders defined",
      "add at least one entry under \x60builders:\x60, e.g. \x60- type: App\x60")
  | unknownType given known suggestion =>
    let types := ", ".intercalate known
    some (s!"unknown builder type '{given}'",
      match suggestion with
      | some s => s!"did you mean '{s}'?"
      | none => s!"known types: {types}")
  | _ => none

/-- A definition file and what it defines. -/
structure Project where
  file : ProjectFile
  definition : Definition

namespace Project

/-- Put an entry into a namespace unless it names one. -/
def fillNamespace (ns : Option String) (v : Value) : Value :=
  match ns, v with
  | some ns, .mapping entries => .mapping (Assoc.insertNew entries "namespace" (.text ns))
  | _, v => v

/-- Read one entry of a file. -/
def definitionOf (ns : Option String) (v : Value) : Except ProjectError Definition :=
  match Definition.decode Definition.types (fillNamespace ns v) with
  | .ok d => .ok d
  | .error (.unknownType given known suggestion) => .error (.unknownType given known suggestion)
  | .error e => .error (.failed (.definition e))

/-- The definitions of a file as one. -/
def united (file : ProjectFile) : List Definition → Definition
  | [d] => d
  | ds => .group { name := file.name, ns := file.ns.getD defaultNamespace } ds false

/-- The project of a definition file. -/
def ofFile (file : ProjectFile) : Except ProjectError Project := do
  if file.definitions.isEmpty then .error .noDefinitions
  else
    let ds ← file.definitions.mapM (definitionOf file.ns)
    .ok ⟨file, united file ds⟩

/-- The project that a text of YAML describes. -/
def ofYaml (s : String) : Except ProjectError Project :=
  match ProjectFile.ofYaml? s with
  | some file => ofFile file
  | none => .error .malformed

/-- The project that a file of a tree describes. -/
def load (tree : FileTree) (path : String) : Except ProjectError Project :=
  match (tree.read path).toOption.bind Bytes.text? with
  | some s => ofYaml s
  | none => .error .inaccessible

/-- The formats that a text asks for. -/
def requested (s : String) : Except Failure (List Format) :=
  if s = "all" then .ok Format.all else (Format.ofName s).map ([·])

/-- The formats to render: those asked for, each once, else those of the file, else all. -/
def formats (p : Project) (asked : List String) : Except Failure (List Format) :=
  if asked.isEmpty then
    .ok (if p.file.formats.isEmpty then Format.all else p.file.formats)
  else do
    let all ← asked.mapM requested
    .ok (all.flatten.foldl (fun fs f => if fs.contains f then fs else fs ++ [f]) [])

/-- The chart of a project. Overrides that are given on their own come last. -/
def chart (p : Project) (overrides : List String) : Except Failure Chart := do
  let s := p.file.chart
  let c := Chart.ofDefinition p.definition
  let c ←
    match s.version with
    | some version => c.withVersion version
    | none => .ok c
  let c := s.dependencies.foldl Chart.addDependency
    { c with
      appVersion := s.appVersion.getD c.appVersion
      description := s.description.getD c.description }
  let c := (s.values.map c.withValues).getD c
  let c ←
    if overrides.isEmpty then .ok c
    else ((Override.values overrides).mapError Failure.override).map c.withValues
  .ok
    { c with
      notes := s.notes
      tests := s.tests.getD true
      separateRequirements := s.legacyRequirements }

/-- The kind of the workload with a name. -/
def workloadKind (rs : List Record) (name : String) : String :=
  let kinds := (rs.filter (·.name? = some name)).filterMap (·.kind?)
  (kinds.find? (["Deployment", "StatefulSet", "DaemonSet"].contains ·)).getD "Deployment"

/-- An overlay with patches for the numbers of replicas. -/
def expanded (rs : List Record) (s : OverlaySettings) : Overlay :=
  s.overlay.mapKustomization fun k =>
    s.replicas.foldl (fun k (name, count) => k.withReplicas (workloadKind rs name) name count) k

def overlays (p : Project) (rs : List Record) : List Overlay := p.file.overlays.map (expanded rs)

/-- The settings of all formats, given the records of the project. -/
def settings (p : Project) (rs : List Record) (overrides : List String) (singleFile : Bool) :
    Except Failure RenderSettings := do
  let chart ← p.chart overrides
  .ok
    { manifests :=
        { layout := if singleFile then .single (p.definition.name ++ ".yaml") else .perRecord }
      compose := p.file.compose.options
      chart
      base := p.file.kustomization
      overlays := p.overlays rs
      terraform := p.file.terraform }

end Project

end Rollout
