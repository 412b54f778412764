import Rollout.Command.Basic
import Rollout.Json.Printer
import Rollout.Project.Basic

/-!
# Running commands

What a command prints, which files it writes, and with which code it ends. What has been
printed and written before a failure stays.
-/

namespace Rollout

/-- The code that a failure ends with before anything is rendered: one for faults of the
definition and of what was asked for, another one for the rest. -/
def Failure.exitCode : Failure → Nat
  | definition _ | unknownFormat _ | unknownPolicy _ | override _ | yaml | json => 3
  | source _ | nothingToRender .. | chartVersion .. | unwritable .. | unarchivable _ => 4

def ProjectError.exitCode : ProjectError → Nat
  | inaccessible => 5
  | malformed | noDefinitions | unknownType .. => 3
  | failed failure => failure.exitCode

/-- Why a command fails. -/
inductive CommandError where
  | project (error : ProjectError)
  /-- A format cannot be rendered. -/
  | rendering (failure : Failure)
  /-- Something is wrong with the definition, and that is asked for. -/
  | invalid
  /-- The program that applies manifests cannot be run, or fails. -/
  | notApplied
  /-- There is a definition file already, or it cannot be written. -/
  | notBegun
  /-- The arguments are not those of a command. -/
  | misuse

/-- What is wrong, in words. -/
def ProjectError.message : ProjectError → String
  | inaccessible => "Failed to access the definition file"
  | malformed => "Invalid definition file"
  | failed failure => failure.message
  | e =>
    match e.advice? with
    | some (said, help) => s!"Invalid definition file: {said}\n  help: {help}"
    | none => "Invalid definition file"

def CommandError.exitCode : CommandError → Nat
  | project error => error.exitCode
  | rendering _ => 4
  | invalid => 2
  | notApplied => 6
  | notBegun => 1
  | misuse => 2

/-- What is wrong, in words. -/
def CommandError.message : CommandError → String
  | project error => error.message
  | rendering failure => failure.message
  | invalid => "Validation failed"
  | notApplied => "kubectl apply failed"
  | notBegun => "The definition file exists already or cannot be written"
  | misuse => "Usage: deckhand [OPTIONS] <COMMAND>\n\nFor more information, try '--help'."

/-- What commands work on. -/
structure Session where
  tree : FileTree
  /-- Whether a program ends well, if there is one of that name. -/
  outcome : String → Option Bool
  /-- The directory in which manifests are kept for such a program. -/
  manifests : String
  printed : String := ""

/-- The programs that only end, well or not. -/
def Session.plainOutcomes : String → Option Bool := Assoc.get? [("true", true), ("false", false)]

/-- Steps of commands. -/
abbrev Running := ExceptT CommandError (StateM Session)

namespace Running

/-- Print a text. -/
def text (s : String) : Running Unit := modify fun st => { st with printed := st.printed ++ s }

/-- Print a line. -/
def line (s : String) : Running Unit := text (s ++ "\n")

/-- Go on with a result, or fail. -/
def orFail {α : Type} : Except ProjectError α → Running α
  | .ok a => pure a
  | .error e => throw (.project e)

/-- Go on with a result, or fail. -/
def orFailure {α : Type} (x : Except Failure α) : Running α := orFail (x.mapError .failed)

/-- Do steps of rendering. -/
def rendering {α : Type} (x : Rendering α) : Running α := do
  let st ← get
  let (result, after) := x.run.run { tree := st.tree }
  set { st with tree := after.tree }
  match result with
  | .ok a => return a
  | .error failure => throw (.rendering failure)

/-- The project of a file. -/
def load (file : String) : Running Project := do orFail (Project.load (← get).tree file)

end Running

namespace Command

open Running

/-- Where a format is found below an output directory. -/
def location (output chartName : String) : Format → String
  | .kubernetes => OutputFile.join output "k8s"
  | .compose => OutputFile.join output Compose.fileName
  | .helm => OutputFile.join (OutputFile.join output "charts") chartName
  | .kustomize => OutputFile.join output "kustomize"
  | .terraform => OutputFile.join output "terraform"

/-- What is told of a format that was rendered. -/
def formatLines (d : Definition) (output chartName : String) (f : Format) : List String :=
  let name := f.name
  let place := location output chartName f
  if d.supports f then
    s!"  ✓ {name} {place}" :: (d.notes f).map fun note => s!"    note: {note}"
  else [s!"  ⚠ {name} skipped: nothing to render"]

def runRender (file output : String) (formats overrides : List String) (singleFile : Bool) :
    Running Unit := do
  let p ← load file
  let formats ← orFailure (p.formats formats)
  let d := p.definition
  let projectName := p.file.name
  let typeName := d.typeName
  let name := d.name
  line s!"→ Rendering {projectName} ({typeName} {name})"
  let rs ← rendering (Rendering.records d)
  let settings ← orFailure (p.settings rs overrides singleFile)
  rendering do
    let _ ← Rendering.records d
    Rendering.all d settings output formats
  let chartName := (settings.chart.map (·.name)).getD name
  for f in formats do
    for told in formatLines d output chartName f do
      line told
  line ""
  let recordCount := rs.length
  let formatCount := formats.length
  line s!"✓ Rendered {recordCount} record(s) in {formatCount} format(s)"

def runPreview (file : String) : Running Unit := do
  let p ← load file
  text (← rendering (Rendering.preview p.definition))

/-- What is told of the problems of a definition. -/
def report (name : String) (problems : List String) : List String :=
  s!"→ Validating {name}" ::
    if problems.isEmpty then ["", "✓ Validation passed!"]
    else
      let count := problems.length
      (problems.map fun problem => s!"  ⚠ {problem}") ++ ["", s!"⚠ {count} problem(s) found"]

/-- The problems of a definition as a value. -/
def reportValue (name : String) (recordCount : Nat) (problems : List String) : Value :=
  .mapping
    [("valid", .bool problems.isEmpty), ("name", .text name), ("records", .nat recordCount),
      ("problems", .texts problems)]

def runValidate (file : String) (asJson strict : Bool) : Running Unit := do
  let p ← load file
  let problems ← rendering (Rendering.problems p.definition)
  if asJson then
    let rs ← rendering (Rendering.records p.definition)
    line (Json.textLines (reportValue p.file.name rs.length problems))
  else
    for told in report p.file.name problems do
      line told
  if strict && !problems.isEmpty then throw .invalid

def runApply (file : String) (dryRun : Bool) (kubectl : String) : Running Unit := do
  let p ← load file
  let preview ← rendering (Rendering.preview p.definition)
  let projectName := p.file.name
  let place := (← get).manifests
  if dryRun then
    line s!"→ Dry run, would run: {kubectl} apply -f {place}"
    text preview
  else
    line s!"→ Applying {projectName} with {kubectl}"
    match (← get).outcome kubectl with
    | some true => line "✓ Applied!"
    | _ => throw .notApplied

/-- The definition file of a new project. -/
def starter (name : String) : String :=
  s!"# Deployment definition for {name}\n" ++
  s!"name: {name}\n" ++
  "namespace: default\n" ++
  "\n" ++
  "# Rendered by \x60deckhand render\x60 when --format is not given\n" ++
  "formats: [kubernetes, compose, helm, kustomize, terraform]\n" ++
  "\n" ++
  "chart:\n" ++
  "  version: 0.1.0\n" ++
  s!"  description: A Helm chart for {name}\n" ++
  "\n" ++
  "overlays:\n" ++
  "  - name: production\n" ++
  "    replicas:\n" ++
  s!"      {name}: 3\n" ++
  "\n" ++
  "builders:\n" ++
  "  - type: App\n" ++
  s!"    name: {name}\n" ++
  "    image: nginx:latest\n" ++
  "    ports:\n" ++
  "      - container: 80\n" ++
  "        host: 8080\n" ++
  "    scaling:\n" ++
  "      replicas: 1\n" ++
  "    env:\n" ++
  "      LOG_LEVEL: info\n" ++
  "    configMaps:\n" ++
  s!"      - name: {name}-config\n" ++
  "        sources:\n" ++
  "          - source: literal\n" ++
  "            key: GREETING\n" ++
  "            value: hello\n"

def runInit (name output : String) : Running Unit := do
  let path := OutputFile.join output defaultFile
  let st ← get
  if st.tree.pathExists path then throw .notBegun
  else
    match st.tree.write path (Bytes.ofText (starter name)) with
    | .error _ => throw .notBegun
    | .ok tree =>
      set { st with tree }
      line s!"✓ Created {path}"
      line ""
      line "Next steps:"
      line s!"  deckhand validate {path}"
      line s!"  deckhand render {path} -o dist"

/-- Do what a command says. -/
def run : Command → Running Unit
  | render file output formats overrides singleFile =>
    runRender file output formats overrides singleFile
  | preview file => runPreview file
  | validate file asJson strict => runValidate file asJson strict
  | apply file dryRun kubectl => runApply file dryRun kubectl
  | init name output => runInit name output

end Command

/-- Do what is asked for. -/
def Request.perform : Request → Running Unit
  | run c => c.run
  | print s => Running.text s
  | misuse => throw .misuse

/-- Do what arguments ask for. -/
def Session.run (st : Session) (environment : Assoc String) (arguments : List String) :
    Except CommandError Unit × Session :=
  (Request.ofArguments environment arguments).perform.run.run st

/-- The code that a result ends with. -/
def exitCode : Except CommandError Unit → Nat
  | .ok () => 0
  | .error e => e.exitCode

end Rollout
