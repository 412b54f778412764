import Rollout.Proofs.Record.Metadata
import Rollout.Proofs.Record.Reference
import Rollout.Proofs.Success
import Rollout.Workload.Template

/-!
# References of pods

The mounts of the main container, the volumes of the pod and the records of the attached
configuration are made apart from each other, all from the same workload. Here each name
in one of them is traced to where the others have it.
-/

namespace Rollout

section Entries

variable {key other : String}

theorem get?_optionEntry_of_ne {α : Type} (a : Option α) (f : α → Value) (h : other ≠ key) :
    Assoc.get? (optionEntry key a f) other = none := by
  cases a with
  | none => rfl
  | some a => rw [optionEntry, Assoc.get?_cons, if_neg h, Assoc.get?_nil]

theorem get?_listEntry_of_ne (items : List Value) (h : other ≠ key) :
    Assoc.get? (listEntry key items) other = none := by
  cases items with
  | nil => rfl
  | cons v items =>
    change Assoc.get? [(key, Value.list (v :: items))] other = none
    rw [Assoc.get?_cons, if_neg h, Assoc.get?_nil]

theorem get?_environmentEntry_of_ne (env : Assoc String) (h : other ≠ "env") :
    Assoc.get? (environmentEntry env) other = none := by
  unfold environmentEntry
  split
  · rfl
  · rw [Assoc.get?_cons, if_neg h, Assoc.get?_nil]

/-- An entry that is left out for an empty list reads as that list all the same. -/
theorem items_listEntry (key : String) (items : List Value) :
    ((Assoc.get? (listEntry key items) key).getD .null).items = items := by
  cases items with
  | nil => rfl
  | cons v items =>
    change ((Assoc.get? [(key, Value.list (v :: items))] key).getD .null).items = _
    rw [Assoc.get?_cons, if_pos rfl]
    rfl

end Entries

namespace Workload

variable {w : Workload} {mode : StorageMode}

theorem container_mounts (w : Workload) :
    (w.container.at "volumeMounts").items = w.volumeMounts := by
  rw [← items_listEntry "volumeMounts" w.volumeMounts]
  simp [container, Value.at_mapping, Assoc.get?_append, Assoc.get?_cons, textsEntry,
    get?_optionEntry_of_ne, get?_listEntry_of_ne, get?_environmentEntry_of_ne]

theorem container_variableSources (w : Workload) :
    (w.container.at "envFrom").items = w.environmentSources := by
  rw [← items_listEntry "envFrom" w.environmentSources]
  simp [container, Value.at_mapping, Assoc.get?_append, Assoc.get?_cons, textsEntry,
    get?_optionEntry_of_ne, get?_listEntry_of_ne, get?_environmentEntry_of_ne]

theorem podTemplate_volumes (w : Workload) (mode : StorageMode) (notes : Assoc String) :
    (((w.podTemplate mode notes).at "spec").at "volumes").items = w.podVolumes mode := by
  have hselector : Assoc.get? (if w.nodeSelector.isEmpty then []
      else [("nodeSelector", Value.textMap w.nodeSelector)]) "volumes" = none := by
    split <;> rfl
  rw [← items_listEntry "volumes" (w.podVolumes mode)]
  simp [podTemplate, Value.at_mapping, Assoc.get?_append, Assoc.get?_cons,
    get?_optionEntry_of_ne, get?_listEntry_of_ne, -List.isEmpty_iff, hselector]

theorem podTemplate_container (w : Workload) (mode : StorageMode) (notes : Assoc String) :
    (((w.podTemplate mode notes).at "spec").at "containers").items.headD .null =
      w.container := by
  simp [podTemplate, Value.at_mapping, Assoc.get?_append, Assoc.get?_cons,
    get?_optionEntry_of_ne, get?_listEntry_of_ne, Value.items, Value.items?]

/-- The pods of a record are those of the workload. -/
def IsRunBy (w : Workload) (mode : StorageMode) (r : Record) : Prop :=
  ∃ notes, r.spec.at "template" = w.podTemplate mode notes

section IsRunBy

variable {r : Record} (h : w.IsRunBy mode r)
include h

theorem IsRunBy.podVolumes : r.podVolumes = w.podVolumes mode := by
  obtain ⟨notes, h⟩ := h
  rw [Record.podVolumes, Record.podSpec, h, podTemplate_volumes]

theorem IsRunBy.mainContainer : r.mainContainer = w.container := by
  obtain ⟨notes, h⟩ := h
  rw [Record.mainContainer, Record.podSpec, h, podTemplate_container]

theorem IsRunBy.mainMounts : r.mainMounts = w.volumeMounts := by
  rw [Record.mainMounts, h.mainContainer, container_mounts]

theorem IsRunBy.mainVariableSources : r.mainVariableSources = w.environmentSources := by
  rw [Record.mainVariableSources, h.mainContainer, container_variableSources]

end IsRunBy

/-- The volume for a mounted ConfigMap. -/
def configVolume (c : ConfigMap) : Value :=
  .mapping [("name", .text (configVolumeName c)),
    ("configMap", .mapping [("name", .text c.info.name)])]

/-- The volume for a mounted Secret. -/
def secretVolume (s : Secret) : Value :=
  .mapping [("name", .text (secretVolumeName s)),
    ("secret", .mapping [("secretName", .text s.info.name)])]

/-- The volume of the pod that a volume of the workload is. -/
def ownVolume (u : Volume) : Value := .mapping [("name", .text u.name), u.source.entry]

/-- The volume for storage of a stateless application. -/
def storageVolume (w : Workload) (s : Storage) : Value :=
  .mapping [("name", .text s.name),
    ("persistentVolumeClaim", .mapping [("claimName", .text (w.claimName s))])]

theorem mem_podVolumes_iff {v : Value} : v ∈ w.podVolumes mode ↔
    (∃ c ∈ w.configMaps, c.mountPath.isSome = true ∧ v = configVolume c) ∨
    (∃ s ∈ w.secrets, s.mountPath.isSome = true ∧ v = secretVolume s) ∨
    (∃ u ∈ w.volumes, v = ownVolume u) ∨
    (mode = .claims ∧ ∃ s ∈ w.storage, v = w.storageVolume s) := by
  cases mode <;>
    simp [podVolumes, configVolume, secretVolume, ownVolume, storageVolume, @eq_comm _ v,
      and_assoc]

theorem mem_volumeMounts_iff {m : Value} : m ∈ w.volumeMounts ↔
    (∃ c ∈ w.configMaps, ∃ path, c.mountPath = some path ∧
      m = mountValue (configVolumeName c) path true) ∨
    (∃ s ∈ w.secrets, ∃ path, s.mountPath = some path ∧
      m = mountValue (secretVolumeName s) path true) ∨
    (∃ u ∈ w.volumes, m = mountValue u.name u.mountPath u.readOnly) ∨
    ∃ s ∈ w.storage, m = mountValue s.name s.mountPath false := by
  simp [volumeMounts, Option.map_eq_some_iff, @eq_comm _ m]

theorem mem_environmentSources_iff {e : Value} : e ∈ w.environmentSources ↔
    (∃ c ∈ w.configMaps, c.mountPath.isNone = true ∧
      e = .mapping [("configMapRef", .mapping [("name", .text c.info.name)])]) ∨
    ∃ s ∈ w.secrets, s.mountPath.isNone = true ∧
      e = .mapping [("secretRef", .mapping [("name", .text s.info.name)])] := by
  simp [environmentSources, @eq_comm _ e, and_assoc]

/-- What is mounted is a volume of the pod, or comes from a claim template. -/
theorem exists_volume_of_mem_mounts (mode : StorageMode) {m : Value} (hm : m ∈ w.volumeMounts) :
    ∃ n, m.nameOf? = some n ∧ ((∃ v ∈ w.podVolumes mode, v.nameOf? = some n) ∨
      mode = .claimTemplates ∧ ∃ s ∈ w.storage, s.name = n) := by
  obtain ⟨c, hc, path, hpath, rfl⟩ | ⟨s, hs, path, hpath, rfl⟩ | ⟨u, hu, rfl⟩ | ⟨s, hs, rfl⟩ :=
    mem_volumeMounts_iff.mp hm
  · have hsome : c.mountPath.isSome = true := by rw [hpath, Option.isSome_some]
    exact ⟨configVolumeName c, rfl, .inl ⟨configVolume c,
      mem_podVolumes_iff.mpr (.inl ⟨c, hc, hsome, rfl⟩), rfl⟩⟩
  · have hsome : s.mountPath.isSome = true := by rw [hpath, Option.isSome_some]
    exact ⟨secretVolumeName s, rfl, .inl ⟨secretVolume s,
      mem_podVolumes_iff.mpr (.inr (.inl ⟨s, hs, hsome, rfl⟩)), rfl⟩⟩
  · exact ⟨u.name, rfl, .inl ⟨ownVolume u,
      mem_podVolumes_iff.mpr (.inr (.inr (.inl ⟨u, hu, rfl⟩))), rfl⟩⟩
  · refine ⟨s.name, rfl, ?_⟩
    cases mode with
    | claims =>
      exact .inl ⟨w.storageVolume s,
        mem_podVolumes_iff.mpr (.inr (.inr (.inr ⟨rfl, s, hs, rfl⟩))), rfl⟩
    | claimTemplates => exact .inr ⟨rfl, s, hs, rfl⟩

/-- A target that comes from the attached configuration. -/
def IsAttached (w : Workload) (t : Target) : Prop :=
  (∃ c ∈ w.configMaps, t = ⟨"ConfigMap", c.info.name⟩) ∨
    ∃ s ∈ w.secrets, t = ⟨"Secret", s.info.name⟩

/-- What a volume of the pod is backed by is attached, a claim for storage, or a claim that
a volume of the workload names. -/
theorem target_of_mem_podVolumes {v : Value} (hv : v ∈ w.podVolumes mode) {t : Target}
    (ht : t ∈ v.volumeTargets) :
    w.IsAttached t ∨
      (mode = .claims ∧ ∃ s ∈ w.storage, t = ⟨"PersistentVolumeClaim", w.claimName s⟩) ∨
      t.kind = "PersistentVolumeClaim" ∧ ∃ u ∈ w.volumes, v.nameOf? = some u.name ∧
        u.source = .claim t.name := by
  obtain ⟨c, hc, -, rfl⟩ | ⟨s, hs, -, rfl⟩ | ⟨u, hu, rfl⟩ | ⟨hmode, s, hs, rfl⟩ :=
    mem_podVolumes_iff.mp hv
  · obtain rfl := List.mem_singleton.mp ht
    exact .inl (.inl ⟨c, hc, rfl⟩)
  · obtain rfl := List.mem_singleton.mp ht
    exact .inl (.inr ⟨s, hs, rfl⟩)
  · obtain ⟨name, mountPath, source, readOnly⟩ := u
    cases source with
    | emptyDir => exact absurd ht List.not_mem_nil
    | hostPath path => exact absurd ht List.not_mem_nil
    | claim claim =>
      obtain rfl := List.mem_singleton.mp ht
      exact .inr (.inr ⟨rfl, _, hu, rfl, rfl⟩)
  · obtain rfl := List.mem_singleton.mp ht
    exact .inr (.inl ⟨hmode, s, hs, rfl⟩)

/-- All variables taken at once come from what is attached. -/
theorem target_of_mem_environmentSources {e : Value} (he : e ∈ w.environmentSources) {t : Target}
    (ht : t ∈ e.variableTargets) : w.IsAttached t := by
  obtain ⟨c, hc, -, rfl⟩ | ⟨s, hs, -, rfl⟩ := mem_environmentSources_iff.mp he
  · obtain rfl := List.mem_singleton.mp ht
    exact .inl ⟨c, hc, rfl⟩
  · obtain rfl := List.mem_singleton.mp ht
    exact .inr ⟨s, hs, rfl⟩

end Workload

end Rollout
