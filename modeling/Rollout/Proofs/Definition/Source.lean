import Rollout.Compose.Project
import Rollout.Definition.Basic
import Rollout.Proofs.FileTree.Edit
import Rollout.Proofs.Success

/-!
# What a definition reads

Of all files a definition reads those that its data sources name. So its records and its compose
project are the same for any two trees in which every source gives the same.
-/

namespace Rollout

namespace DataSource

/-- The path that a source is read from. -/
def path? : DataSource → Option String
  | file _ path | directory path | envFile path | binaryFile _ path => some path
  | literal .. | json .. | yaml .. | properties .. | ini .. | template .. | binary .. => none

/-- A source gives the same in two trees. -/
def SameIn (tree other : FileTree) (s : DataSource) : Prop :=
  ∀ owner policy, s.contributions other owner policy = s.contributions tree owner policy

variable {tree other : FileTree}

theorem readFile_congr {path : String} (h : other.read path = tree.read path) (owner : String)
    (policy : MissingSources) :
    readFile other owner policy path = readFile tree owner policy path := by
  unfold readFile
  rw [h]

/-- A source gives the same after edits if its path avoids them. -/
theorem sameIn_of_edits {touched made : Place → Prop}
    (h : FileTree.Edits touched made tree other) {s : DataSource}
    (hpath : ∀ path, s.path? = some path → tree.Avoids touched made path) :
    s.SameIn tree other := by
  intro owner policy
  cases s with
  | literal _ _ | json _ _ | yaml _ _ | properties _ _ | ini _ _ | template _ _ _
  | binary _ _ => rfl
  | file key path | binaryFile key path | envFile path =>
    have hread := readFile_congr ((hpath path rfl).read_eq h) owner policy
    simp only [contributions, hread]
  | directory path =>
    have havoids := hpath path rfl
    simp only [contributions, havoids.isDirectory_eq h, havoids.filesIn_eq h]

theorem resolve_congr {sources : List DataSource} (h : ∀ s ∈ sources, s.SameIn tree other)
    (owner : String) (policy : MissingSources) :
    resolve other owner policy sources = resolve tree owner policy sources := by
  rw [resolve, resolve, mapM_congr fun s hs => h s hs owner policy]

end DataSource

section Congr

variable {tree other : FileTree}

theorem ConfigMap.resolve_congr {c : ConfigMap} (h : ∀ s ∈ c.sources, s.SameIn tree other) :
    c.resolve other = c.resolve tree :=
  DataSource.resolve_congr h _ _

theorem Secret.resolve_congr {c : Secret} (h : ∀ s ∈ c.sources, s.SameIn tree other) :
    c.resolve other = c.resolve tree :=
  DataSource.resolve_congr h _ _

namespace Workload

/-- The data sources of the configuration that is attached to a workload. -/
def sources (w : Workload) : List DataSource :=
  w.configMaps.flatMap (·.sources) ++ w.secrets.flatMap (·.sources)

variable {w : Workload} (h : ∀ s ∈ w.sources, s.SameIn tree other)
include h

theorem resolve_configMap_congr {c : ConfigMap} (hc : c ∈ w.configMaps) :
    c.resolve other = c.resolve tree :=
  ConfigMap.resolve_congr fun s hs =>
    h s (List.mem_append_left _ (List.mem_flatMap.mpr ⟨c, hc, hs⟩))

theorem resolve_secret_congr {c : Secret} (hc : c ∈ w.secrets) :
    c.resolve other = c.resolve tree :=
  Secret.resolve_congr fun s hs =>
    h s (List.mem_append_right _ (List.mem_flatMap.mpr ⟨c, hc, hs⟩))

theorem configRecords_congr : w.configRecords other = w.configRecords tree := by
  have hmaps : w.configMaps.mapM (ConfigMap.records other) =
      w.configMaps.mapM (ConfigMap.records tree) := mapM_congr fun c hc => by
    rw [ConfigMap.records, ConfigMap.records, resolve_configMap_congr h hc]
  have hsecrets : w.secrets.mapM (Secret.records other) =
      w.secrets.mapM (Secret.records tree) := mapM_congr fun c hc => by
    rw [Secret.records, Secret.records, resolve_secret_congr h hc]
  rw [configRecords, configRecords, hmaps, hsecrets]

theorem checksumNotes_congr : w.checksumNotes other = w.checksumNotes tree := by
  have hsums : w.configMaps.mapM (ConfigMap.checksum other) =
      w.configMaps.mapM (ConfigMap.checksum tree) := mapM_congr fun c hc => by
    rw [ConfigMap.checksum, ConfigMap.checksum, resolve_configMap_congr h hc]
  rw [checksumNotes, checksumNotes, configChecksum, configChecksum, hsums]

theorem deployed_congr : Compose.deployed other w = Compose.deployed tree w := by
  have hmaps : w.configMaps.mapM (fun c => (c.resolve other).map fun d =>
      (⟨c.info.name, c.mountPath, d⟩ : Compose.Attachment)) =
      w.configMaps.mapM fun c => (c.resolve tree).map fun d => ⟨c.info.name, c.mountPath, d⟩ :=
    mapM_congr fun c hc => by rw [resolve_configMap_congr h hc]
  have hsecrets : w.secrets.mapM (fun s => (s.resolve other).map fun d =>
      (⟨s.info.name, s.mountPath, d⟩ : Compose.Attachment)) =
      w.secrets.mapM fun s => (s.resolve tree).map fun d => ⟨s.info.name, s.mountPath, d⟩ :=
    mapM_congr fun s hs => by rw [resolve_secret_congr h hs]
  rw [Compose.deployed, Compose.deployed, hmaps, hsecrets]

end Workload

theorem App.records_congr {a : App} (h : ∀ s ∈ a.workload.sources, s.SameIn tree other) :
    a.records other = a.records tree := by
  rw [records, records, Workload.checksumNotes_congr h, Workload.configRecords_congr h]

theorem StatefulApp.records_congr {a : StatefulApp}
    (h : ∀ s ∈ a.workload.sources, s.SameIn tree other) : a.records other = a.records tree := by
  rw [records, records, Workload.checksumNotes_congr h, Workload.configRecords_congr h]

namespace Definition

mutual

/-- The data sources of a definition. -/
def sources : Definition → List DataSource
  | app a => a.workload.sources
  | statefulApp a => a.workload.sources
  | configMap c => c.sources
  | secret s => s.sources
  | group _ members _ => memberSources members
  | _ => []

/-- The data sources of several definitions. -/
def memberSources : List Definition → List DataSource
  | [] => []
  | d :: ds => sources d ++ memberSources ds

end

mutual

/-- The records depend on the files only through the data sources. -/
theorem records_congr (d : Definition) (h : ∀ s ∈ d.sources, s.SameIn tree other) :
    d.records other = d.records tree := by
  cases d with
  | app a => exact App.records_congr h
  | statefulApp a => exact StatefulApp.records_congr h
  | configMap c => exact congrArg (Except.map _) (ConfigMap.resolve_congr h)
  | secret s => exact congrArg (Except.map _) (Secret.resolve_congr h)
  | group info members create =>
    rw [records, records, memberRecords_congr members h]
  | job _ | cronJob _ | service _ | ingress _ | networkPolicy _ | serviceAccount _ | role _ _
  | binding _ _ | customResource _ | ofNamespace _ => rfl

theorem memberRecords_congr (ds : List Definition)
    (h : ∀ s ∈ memberSources ds, s.SameIn tree other) :
    memberRecords other ds = memberRecords tree ds := by
  cases ds with
  | nil => rfl
  | cons d ds =>
    obtain ⟨hd, hds⟩ := List.forall_mem_append.mp h
    rw [memberRecords, memberRecords, records_congr d hd, memberRecords_congr ds hds]

end

mutual

theorem sources_of_mem_workloads {w : Workload} (d : Definition) (h : w ∈ d.workloads) :
    w.sources ⊆ d.sources := by
  cases d with
  | app a =>
    obtain rfl := List.mem_singleton.mp h
    exact List.Subset.refl _
  | statefulApp a =>
    obtain rfl := List.mem_singleton.mp h
    exact List.Subset.refl _
  | group info members create => exact sources_of_mem_memberWorkloads members h
  | configMap _ | secret _ | job _ | cronJob _ | service _ | ingress _ | networkPolicy _
  | serviceAccount _ | role _ _ | binding _ _ | customResource _ | ofNamespace _ =>
    exact absurd h List.not_mem_nil

theorem sources_of_mem_memberWorkloads {w : Workload} (ds : List Definition)
    (h : w ∈ memberWorkloads ds) : w.sources ⊆ memberSources ds := by
  cases ds with
  | nil => exact absurd h List.not_mem_nil
  | cons d ds =>
    obtain h | h := List.mem_append.mp h
    · exact List.subset_append_of_subset_left _ (sources_of_mem_workloads d h)
    · exact List.subset_append_of_subset_right _ (sources_of_mem_memberWorkloads ds h)

end

/-- The files for compose depend on the tree only through the data sources. -/
theorem composeFiles_congr {d : Definition} (h : ∀ s ∈ d.sources, s.SameIn tree other)
    (o : ComposeOptions) : Compose.files o other d = Compose.files o tree d := by
  have hdeployed : d.workloads.mapM (Compose.deployed other) =
      d.workloads.mapM (Compose.deployed tree) := mapM_congr fun w hw =>
    Workload.deployed_congr fun s hs => h s (sources_of_mem_workloads d hw hs)
  rw [Compose.files, Compose.files, Compose.project, Compose.project, hdeployed]

end Definition

end Congr

end Rollout
