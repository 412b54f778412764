import Rollout.Chart.Files
import Rollout.Compose.Project
import Rollout.Kustomize.Basic
import Rollout.Terraform.Files

/-!
# Rendering definitions

The records of a definition are made at most once and rendered into any number of
formats. When several formats are rendered together each has a place of its own below
the output directory; formats that make nothing of a definition are passed over.
-/

namespace Rollout

/-- The settings of all formats. -/
structure RenderSettings where
  manifests : ManifestOptions := {}
  compose : ComposeOptions := {}
  /-- The chart, unless it is the one that the definition implies. -/
  chart : Option Chart := none
  base : Kustomization := {}
  overlays : List Overlay := []
  terraform : TerraformModule := {}

/-- What rendering works on: the files, and the records once they are made. -/
structure RenderState where
  tree : FileTree
  records : Option (List Record) := none

/-- Steps of rendering. The files written before a failure stay. -/
abbrev Rendering := ExceptT Failure (StateM RenderState)

namespace Rendering

/-- Write files in the course of rendering. -/
def written (dir : String) (fs : List OutputFile) : Rendering (List String) := do
  let st ← get
  let (result, tree) := (Writing.files dir fs).run.run st.tree
  set { st with tree }
  liftExcept result
where
  liftExcept {α : Type} : Except Failure α → Rendering α
    | .ok a => pure a
    | .error e => throw e

/-- The records of a definition. A failure is not kept. -/
def records (d : Definition) : Rendering (List Record) := do
  let st ← get
  match st.records with
  | some rs => return rs
  | none =>
    match d.records st.tree with
    | .ok rs =>
      set { st with records := some rs }
      return rs
    | .error e => throw (.source e)

def kubernetes (d : Definition) (o : ManifestOptions) (dir : String) :
    Rendering (List String) := do
  written dir (Manifest.files o (← records d))

def compose (d : Definition) (o : ComposeOptions) (dir : String) : Rendering (List String) := do
  written dir (← written.liftExcept (Compose.files o (← get).tree d))

def helm (d : Definition) (chart : Option Chart) (dir : String) : Rendering (List String) := do
  let rs ← records d
  written dir (← written.liftExcept ((chart.getD (.ofDefinition d)).treeFiles d rs))

def kustomize (d : Definition) (base : Kustomization) (overlays : List Overlay) (dir : String) :
    Rendering (List String) := do
  written dir (Kustomize.files base overlays (← records d))

/-- The name of the directory that a module stands in. -/
def directoryName (dir : String) : String := (FileTree.lastName? dir).getD "terraform"

def terraform (d : Definition) (m : TerraformModule) (dir : String) :
    Rendering (List String) := do
  let m := m.withDefaultNamespace d.ns
  written dir (Terraform.files m d.name (directoryName dir) (← records d))

/-- The directory of a format below the output directory. -/
def directory (dir : String) : Format → String
  | .kubernetes => OutputFile.join dir "k8s"
  | .compose => dir
  | .helm => OutputFile.join dir "charts"
  | .kustomize => OutputFile.join dir "kustomize"
  | .terraform => OutputFile.join dir "terraform"

/-- Render one format to its place below the output directory. -/
def format (d : Definition) (s : RenderSettings) (dir : String) (f : Format) :
    Rendering (List String) :=
  let place := directory dir f
  match f with
  | .kubernetes => kubernetes d s.manifests place
  | .compose => compose d s.compose place
  | .helm => helm d s.chart place
  | .kustomize => kustomize d s.base s.overlays place
  | .terraform => terraform d s.terraform place

/-- The settings that are left for later formats. A chart, a kustomization and a module are
rendered once with their settings. -/
def leftAfter (s : RenderSettings) : Format → RenderSettings
  | .helm => { s with chart := none }
  | .kustomize => { s with base := {}, overlays := [] }
  | .terraform => { s with terraform := {} }
  | .kubernetes | .compose => s

/-- Render formats one after the other. -/
def each (d : Definition) (dir : String) : RenderSettings → List Format → Rendering Unit
  | _, [] => return
  | s, f :: fs =>
    if d.supports f then do
      let _ ← format d s dir f
      each d dir (leftAfter s f) fs
    else each d dir s fs

/-- Render formats, or all formats if none is named. -/
def all (d : Definition) (s : RenderSettings) (dir : String) (formats : List Format) :
    Rendering Unit :=
  each d dir s (if formats.isEmpty then Format.all else formats)

end Rendering

namespace Record

/-- How a report calls the record at a place of a list. -/
def reportName (r : Record) (place : Nat) : String :=
  match r.kind?, r.name? with
  | some kind, some name => s!"{kind}/{name}"
  | some kind, none => s!"{kind} #{place}"
  | none, _ => s!"record #{place}"

/-- What the record at a place of a list is missing. -/
def problems (r : Record) (place : Nat) : List String :=
  r.missingFields.map fun field => r.reportName place ++ ": missing " ++ field

/-- The document of a record below a line that tells its kind and name. -/
def previewText (r : Record) : String :=
  let kind := r.kind?.getD "Unknown"
  let name := r.name?.getD "unnamed"
  s!"# Source: {kind}/{name}\n" ++ Yaml.text r.toValue

end Record

namespace Rendering

/-- What is wrong with a definition and with its records. -/
def problems (d : Definition) : Rendering (List String) := do
  let own := d.problems (← get).tree
  let rs ← records d
  return own ++ (rs.mapIdx fun place r => r.problems place).flatten

/-- All records of a definition as one text. -/
def preview (d : Definition) : Rendering String := do
  return Manifest.separator.intercalate ((← records d).map Record.previewText)

end Rendering

end Rollout
