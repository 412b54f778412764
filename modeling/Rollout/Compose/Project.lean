import Rollout.Compose.Service
import Rollout.Text.Basic

/-!
# Compose projects

All workloads of a definition as one compose file, with the files that it mounts, an
environment file, and documents that override it for development and for production.
-/

namespace Rollout

/-- A document that overrides a compose file for one purpose. -/
inductive ComposeOverride where
  | development
  | production
deriving DecidableEq

namespace ComposeOverride

def name : ComposeOverride → String
  | development => "development"
  | production => "production"

def codec : Codec ComposeOverride := .choice [development, production] name

def fileName (o : ComposeOverride) : String := "docker-compose." ++ o.name ++ ".yml"

end ComposeOverride

/-- The settings of compose files. -/
structure ComposeOptions where
  version : String := "3.8"
  /-- Whether a file with all variables is written. -/
  envFile : Bool := false
  overrides : List ComposeOverride := []
deriving DecidableEq

/-- A compose project. -/
structure ComposeProject where
  name : String
  document : Value
  /-- The variables of all services, each with its first value. -/
  env : Assoc String
  /-- The files that services mount. -/
  files : List OutputFile
  /-- The services for workloads, each with the directory that its image is built from. -/
  built : List (String × Option String)

namespace Compose

def fileName : String := "docker-compose.yml"

/-- The network that all services of a project share. -/
def networkName (name : String) : String := Name.fileName name

/-- The document of a project. -/
def document (version network : String) (ds : List Deployed) : Value :=
  let services := Assoc.ofPairs (ds.flatMap (·.services network))
  let volumes := Assoc.ofPairs
    (ds.flatMap fun d => (namedVolumes d.workload).map fun v => (v, Value.empty))
  .mapping <|
    [("version", .text version), ("services", .mapping services)] ++ mapEntry "volumes" volumes ++
      [("networks", .mapping [(network, .mapping [("driver", .text "bridge")])])]

/-- The variables of all services. -/
def sharedEnvironment (ds : List Deployed) : Assoc String :=
  (ds.flatMap Deployed.environment).foldl (fun m (key, value) => m.insertNew key value) []

/-- The project for a definition. It has to run something. -/
def project (o : ComposeOptions) (files : FileTree) (d : Definition) :
    Except Failure ComposeProject := do
  let workloads := d.workloads
  if workloads.isEmpty then .error (.nothingToRender d.typeName d.name .compose)
  else
    let ds ← (workloads.mapM (deployed files)).mapError .source
    .ok
      { name := d.name
        document := document o.version (networkName d.name) ds
        env := sharedEnvironment ds
        files := ds.flatMap Deployed.files
        built := workloads.map fun w => (w.name, w.build.map (·.context)) }

/-- The compose file of a definition as a text. -/
def text (o : ComposeOptions) (files : FileTree) (d : Definition) : Except Failure String :=
  (project o files d).map fun p => Yaml.text p.document

/-- What a service gains for development: more output, and its sources. -/
def developmentService (context : Option String) : Value :=
  .mapping <|
    [("environment", .textMap [("DEBUG", "true"), ("LOG_LEVEL", "debug")])] ++
      optionEntry "volumes" context fun c => .texts [c ++ ":/app"]

/-- What a service gains for production: it always comes back, and keeps few logs. -/
def productionService : Value :=
  .mapping [("restart", .text "always"),
    ("logging", .mapping [("driver", .text "json-file"),
      ("options", .textMap [("max-size", "10m"), ("max-file", "3")])])]

/-- The document that overrides a compose file. -/
def overrideDocument (version : String) (p : ComposeProject) (o : ComposeOverride) : Value :=
  let services := p.built.map fun (name, context) =>
    (name, match o with
      | .development => developmentService context
      | .production => productionService)
  .mapping [("version", .text version), ("services", .mapping (Assoc.ofPairs services))]

/-- Whether a value needs quotes in an environment file. -/
def needsQuotes (value : String) : Bool :=
  value.toList.any fun c => Text.isBlank c || c = '#' || c = '"'

/-- A value as an environment file holds it. -/
def envValue (value : String) : String :=
  if needsQuotes value then
    "\"" ++ Text.replace (Text.replace value "\\" "\\\\") "\"" "\\\"" ++ "\""
  else value

/-- The environment file of a project. -/
def envText (p : ComposeProject) : String :=
  s!"# Environment for {p.name}\n" ++
    String.join (p.env.map fun (key, value) => key ++ "=" ++ envValue value ++ "\n")

/-- All files of a project. -/
def projectFiles (o : ComposeOptions) (p : ComposeProject) : List OutputFile :=
  [.ofValue fileName p.document] ++ p.files ++
    (if o.envFile then [.ofText ".env" (envText p)] else []) ++
    o.overrides.map fun kind => .ofValue kind.fileName (overrideDocument o.version p kind)

/-- The files for a definition. -/
def files (o : ComposeOptions) (tree : FileTree) (d : Definition) :
    Except Failure (List OutputFile) :=
  (project o tree d).map (projectFiles o)

end Compose

end Rollout
