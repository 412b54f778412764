import Rollout.Chart.Basic
import Rollout.Chart.Primary
import Rollout.Chart.Template
import Rollout.Output

/-!
# The files of a chart

The manifest, the values and the templates of a chart, as files below its directory or as
the entries of an archive.
-/

namespace Rollout.Chart

/-- The values before any override. -/
def derivedValues (d : Definition) (rs : List Record) : Value :=
  match Primary.find? d rs with
  | some p => p.values
  | none => .textMap [("nameOverride", ""), ("fullnameOverride", "")]

/-- Turn the dependencies off that are disabled. -/
def disableAll (v : Value) (ds : List ChartDependency) : Except Failure Value :=
  (ds.filter fun d => !d.enabled).foldlM (fun v d =>
    (Override.set v d.conditionPath (.bool false)).mapError .override) v

/-- The values of a chart: the derived ones, the overrides laid over them, and disabled
dependencies turned off. -/
def values (c : Chart) (d : Definition) (rs : List Record) : Except Failure Value :=
  disableAll ((derivedValues d rs).merge c.overrides) c.dependencies

/-- The files that come before the templates. -/
def metadataFiles (c : Chart) (values : Value) : List OutputFile :=
  [.ofValue "Chart.yaml" c.manifest,
    .ofText "values.yaml" (s!"# Default values for {c.name}\n" ++ Yaml.text values),
    .ofText ".helmignore" ignoreText] ++
    if c.separateRequirements && !c.dependencies.isEmpty then
      [.ofValue "requirements.yaml" (.mapping [("dependencies", c.dependencyList)])]
    else []

/-- The templates for the workload of a chart. -/
def primaryFiles (chart : String) (p : Primary) : List OutputFile :=
  [.ofText ("templates/" ++ p.kind.toLower ++ ".yaml")
      (Section.textAll (workloadSections chart p.record.record)),
    .ofText "templates/service.yaml"
      (Section.textAll (serviceSections chart (p.service.map Placed.record))),
    .ofText "templates/serviceaccount.yaml" (fill serviceAccountText chart),
    .ofText "templates/ingress.yaml" (fill ingressText chart),
    .ofText "templates/hpa.yaml" (fillKind (fill autoscalerText chart) p.kind)]

/-- The records that are copied into a chart: those that no template of the workload stands
for, and those of the chart itself, each object once. -/
def copiedRecords (c : Chart) (p : Option Primary) (rs : List Record) : List Record :=
  let others := (rs.mapIdx Placed.mk).filter fun r => !p.any (·.covers r.place)
  Record.distinct (others.map Placed.record ++ c.resources)

/-- The templates for copied records. -/
def recordFiles (rs : List Record) : List OutputFile :=
  (Record.fileNames rs).zip rs |>.map fun (name, r) => .ofText ("templates/" ++ name) (recordText r)

/-- The test of the connection to the Service of the workload. -/
def testFiles (c : Chart) (p : Option Primary) : List OutputFile :=
  if c.tests && p.any (·.service.isSome) then
    [.ofText "templates/tests/test-connection.yaml" (fill testText c.name)]
  else []

/-- The files of a chart. -/
def files (c : Chart) (d : Definition) (rs : List Record) : Except Failure (List OutputFile) := do
  let values ← values c d rs
  let p := Primary.find? d rs
  .ok <|
    metadataFiles c values ++ [.ofText "templates/_helpers.tpl" (fill helpersText c.name)] ++
      (p.map (primaryFiles c.name)).getD [] ++ recordFiles (copiedRecords c p rs) ++
      [.ofText "templates/NOTES.txt" (noteText c.name c.notes p.isSome)] ++ testFiles c p

/-- The files of a chart below a directory of its name. -/
def treeFiles (c : Chart) (d : Definition) (rs : List Record) :
    Except Failure (List OutputFile) :=
  (files c d rs).map fun fs => fs.map (.under c.name)

/-! ### Archives -/

/-- The longest path that an entry holds in its head. -/
def maxHeadPath : Nat := 100

/-- The path of an entry: relative, without steps that stay or lead out. A path that does not
fit into the head of an entry is kept as it is. -/
def archivePath (path : String) : Except Failure String :=
  let steps := (Text.parts '/' path).filter fun s => !s.isEmpty && s != "."
  if Text.startsWith path "/" || steps.contains ".." then .error (.unarchivable path)
  else
    let short := "/".intercalate steps
    .ok (if Text.byteLength short ≤ maxHeadPath then short else path)

/-- The entries of an archive: every file below the name of the chart. -/
def archiveEntries (chart : String) (fs : List OutputFile) : Except Failure (List OutputFile) :=
  fs.mapM fun f =>
    (archivePath (chart ++ "/" ++ f.path)).map fun path => { f with path }

end Rollout.Chart
