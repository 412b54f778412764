import Rollout.Chart.Basic
import Rollout.Compose.Project
import Rollout.Kustomize.Basic
import Rollout.Terraform.Module
import Rollout.Yaml.Reader

/-!
# Definition files

A definition file names a project, lists the definitions that make it up, and holds the
settings of the formats it is rendered into.
-/

namespace Rollout

/-- The settings of the chart of a project. What is not given follows from its
definitions. -/
structure ChartSettings where
  version : Option String := none
  appVersion : Option String := none
  description : Option String := none
  dependencies : List ChartDependency := []
  /-- Values that are laid over the derived ones. -/
  values : Option Value := none
  notes : Option String := none
  tests : Option Bool := none
  legacyRequirements : Bool := false

def ChartSettings.codec : Codec ChartSettings :=
  .closed "ChartSettings" <|
    ChartSettings.mk <$> .optionalInMapping "version" (·.version) .text
      <*> .optionalInMapping "appVersion" (·.appVersion) .text
      <*> .optionalInMapping "description" (·.description) .text
      <*> .defaulted "dependencies" (·.dependencies) (.list ChartDependency.codec) []
      <*> .optionalInMapping "values" (·.values) .any
      <*> .optionalInMapping "notes" (·.notes) .text
      <*> .optionalInMapping "tests" (·.tests) .bool
      <*> .defaulted "legacyRequirements" (·.legacyRequirements) .bool false

/-- The settings of the compose files of a project. -/
structure ComposeSettings where
  version : Option String := none
  envFile : Bool := false
  overrides : List ComposeOverride := []

namespace ComposeSettings

def codec : Codec ComposeSettings :=
  .closed "ComposeSettings" <|
    ComposeSettings.mk <$> .optionalInMapping "version" (·.version) .text
      <*> .defaulted "envFile" (·.envFile) .bool false
      <*> .defaulted "overrides" (·.overrides) (.list ComposeOverride.codec) []

def options (s : ComposeSettings) : ComposeOptions :=
  let standard : ComposeOptions := {}
  ⟨s.version.getD standard.version, s.envFile, s.overrides⟩

end ComposeSettings

/-- An overlay, and for workloads by name how many replicas they have in it. -/
structure OverlaySettings where
  overlay : Overlay
  replicas : Assoc Nat := []

def OverlaySettings.codec : Codec OverlaySettings :=
  .mapping "OverlaySettings" <|
    OverlaySettings.mk <$> .part (·.overlay) Overlay.fields
      <*> .defaulted "replicas" (·.replicas) (.sorted .nat32) []

/-- The content of a definition file. -/
structure ProjectFile where
  name : String
  /-- The namespace of definitions that name none. -/
  ns : Option String := none
  /-- The formats that are rendered if no other ones are asked for; all of them if there are
  none. -/
  formats : List Format := []
  chart : ChartSettings := {}
  compose : ComposeSettings := {}
  kustomization : Kustomization := {}
  overlays : List OverlaySettings := []
  terraform : TerraformModule := {}
  definitions : List Value

namespace ProjectFile

def codec : Codec ProjectFile :=
  .closed "Definition" <|
    ProjectFile.mk <$> .required "name" (·.name) .text
      <*> .optional "namespace" (·.ns) .text
      <*> .defaulted "formats" (·.formats) (.list Format.codec) []
      <*> .defaulted "chart" (·.chart) ChartSettings.codec {}
      <*> .defaulted "compose" (·.compose) ComposeSettings.codec {}
      <*> .defaulted "kustomization" (·.kustomization) Kustomization.codec {}
      <*> .defaulted "overlays" (·.overlays) (.list OverlaySettings.codec) []
      <*> .defaulted "terraform" (·.terraform) TerraformModule.codec {}
      <*> .required "builders" (·.definitions) (.list .any)

/-- The content that a text of YAML describes. -/
def ofYaml? (s : String) : Option ProjectFile :=
  (Yaml.parseAs? codec.shape s).bind fun v => (codec.decode .direct v).toOption

end ProjectFile

end Rollout
