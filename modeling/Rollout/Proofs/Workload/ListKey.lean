import Mathlib.Data.List.Nodup
import Rollout.Proofs.Workload.Template
import Rollout.Workload.Basic

/-!
# Names in the lists of a pod

In some lists of a pod the items are told apart by their names: its containers, its volumes and the
ports of a container. Some of these names are given in the definition, others are made for what is
given. A list has a name twice where a name is given twice, or where a name is made that is given as
well. Two names that are made never meet as long as the numbers of ports differ.
-/

namespace Rollout

namespace Record

/-- The ports of the main container. -/
def mainPorts (r : Record) : List Value := (r.mainContainer.at "ports").items

/-- The containers of the pods, with those that run before the main one. -/
def podContainers (r : Record) : List Value :=
  (r.podSpec.at "initContainers").items ++ (r.podSpec.at "containers").items

end Record

/-- No two items of a list have the same name. -/
def NamedApart (items : List Value) : Prop := (items.map Value.nameOf?).Nodup

instance (items : List Value) : Decidable (NamedApart items) :=
  inferInstanceAs (Decidable (List.Nodup _))

theorem namedApart_iff_nodup {items : List Value} {names : List String}
    (h : items.map Value.nameOf? = names.map some) : NamedApart items ↔ names.Nodup := by
  rw [NamedApart, h, List.nodup_map_iff fun _ _ => Option.some.inj]

/-- Texts that begin alike differ just where what follows does. -/
theorem nodup_map_front_iff {α : Type} (front : String) (f : α → String) (items : List α) :
    (items.map fun a => front ++ f a).Nodup ↔ (items.map f).Nodup := by
  have hiff : ((items.map f).map (front ++ ·)).Nodup ↔ (items.map f).Nodup :=
    List.nodup_map_iff fun _ _ => (String.append_right_inj front).mp
  rwa [List.map_map] at hiff

namespace Port

/-- The names of ports in a list. -/
def names (ps : List Port) : List String := ps.mapIdx fun i p => p.nameAt i

/-- The names that are given to ports. -/
def givenNames (ps : List Port) : List String := ps.filterMap (·.name)

/-- The name that is made for a port behind the first one. -/
def madeName (p : Port) : String := "port-" ++ toString p.container

/-- The names that are made for ports. -/
def madeNames : List Port → List String
  | [] => []
  | p :: ps => (if p.name.isNone then ["http"] else []) ++ (ps.filter (·.name.isNone)).map madeName

/-- The names that are given to ports come once, and are none of those that are made. -/
structure NamesApart (ps : List Port) : Prop where
  given : (givenNames ps).Nodup
  made : ∀ n ∈ madeNames ps, n ∉ givenNames ps

theorem names_cons (p : Port) (ps : List Port) :
    names (p :: ps) = p.name.getD "http" :: ps.map fun q => q.name.getD q.madeName := by
  rw [names, List.mapIdx_cons]
  refine congrArg _ (List.ext_getElem (by simp) fun i _ _ => ?_)
  rw [List.getElem_mapIdx, List.getElem_map]
  rfl

theorem perm_later (ps : List Port) : (ps.map fun p => p.name.getD p.madeName).Perm
    (givenNames ps ++ (ps.filter (·.name.isNone)).map madeName) := by
  induction ps with
  | nil => exact .nil
  | cons p ps ih =>
    cases hp : p.name with
    | some n =>
      rw [givenNames, List.map_cons, List.filterMap_cons_some hp,
        List.filter_cons_of_neg (by simp [hp]), hp]
      exact ih.cons n
    | none =>
      rw [givenNames, List.map_cons, List.filterMap_cons_none hp,
        List.filter_cons_of_pos (by simp [hp]), hp]
      exact (ih.cons p.madeName).trans List.perm_middle.symm

/-- The names of ports are those that are given and those that are made. -/
theorem perm_names (ps : List Port) : (names ps).Perm (givenNames ps ++ madeNames ps) := by
  cases ps with
  | nil => exact .nil
  | cons p ps =>
    rw [names_cons, madeNames]
    cases hp : p.name with
    | some n =>
      rw [givenNames, List.filterMap_cons_some hp]
      exact (perm_later ps).cons n
    | none =>
      rw [givenNames, List.filterMap_cons_none hp]
      exact ((perm_later ps).cons "http").trans List.perm_middle.symm

theorem madeName_eq_iff {p q : Port} : p.madeName = q.madeName ↔ p.container = q.container := by
  constructor
  · intro h
    have hdigits (n : Nat) : (toString n).toList = Nat.toDigits 10 n := String.toList_ofList
    have hlists := congrArg String.toList ((String.append_right_inj _).mp h)
    rw [hdigits, hdigits] at hlists
    have hvalue := congrArg (fun digits => Nat.ofDigitChars 10 digits 0) hlists
    simpa only [Nat.ofDigitChars_ten_toDigits] using hvalue
  · intro h
    rw [madeName, madeName, h]

/-- The first letter tells a name from all that are made for a number. -/
theorem notMem_map_madeName {n : String} (h : n.toList.head? ≠ some 'p') (ps : List Port) :
    n ∉ ps.map madeName := by
  intro hmem
  obtain ⟨p, -, rfl⟩ := List.mem_map.mp hmem
  apply h
  rw [madeName, String.toList_append]
  rfl

/-- No two names are made alike if no number of a port comes twice. -/
theorem nodup_madeNames {ps : List Port} (h : (ps.map (·.container)).Nodup) :
    (madeNames ps).Nodup := by
  cases ps with
  | nil => exact List.nodup_nil
  | cons p ps =>
    have hlater : ((ps.filter (·.name.isNone)).map madeName).Nodup := by
      have hnumbers : ((ps.filter (·.name.isNone)).map (·.container)).Nodup :=
        (List.nodup_cons.mp h).2.sublist (List.filter_sublist.map _)
      rw [List.nodup_iff_pairwise_ne, List.pairwise_map] at hnumbers ⊢
      exact hnumbers.imp fun hne heq => hne (madeName_eq_iff.mp heq)
    rw [madeNames]
    split
    · exact List.nodup_cons.mpr ⟨notMem_map_madeName (by decide) _, hlater⟩
    · exact hlater

/-- Ports with different numbers are named apart unless a name is given twice, or is both given and
made. -/
theorem nodup_names_iff {ps : List Port} (h : (ps.map (·.container)).Nodup) :
    (names ps).Nodup ↔ NamesApart ps := by
  rw [(perm_names ps).nodup_iff, List.nodup_append]
  constructor
  · rintro ⟨hgiven, -, hdisjoint⟩
    exact ⟨hgiven, fun n hn hmem => hdisjoint n hmem n hn rfl⟩
  · rintro ⟨hgiven, hmade⟩
    refine ⟨hgiven, nodup_madeNames h, ?_⟩
    rintro n hn m hm rfl
    exact hmade n hm hn

end Port

namespace Workload

variable {w : Workload} {mode : StorageMode} {r : Record}

/-! ### Ports -/

theorem container_ports (w : Workload) : (w.container.at "ports").items = w.portValues := by
  rw [← items_listEntry "ports" w.portValues]
  simp [container, Value.at_mapping, Assoc.get?_append, Assoc.get?_cons, textsEntry,
    get?_optionEntry_of_ne, get?_listEntry_of_ne, get?_environmentEntry_of_ne]

theorem names_portValues (w : Workload) :
    w.portValues.map Value.nameOf? = (Port.names w.ports).map some := by
  refine List.ext_getElem (by simp [portValues, Port.names]) fun i _ _ => ?_
  simp only [portValues, Port.names, List.getElem_map, List.getElem_mapIdx]
  rfl

theorem IsRunBy.namedApart_mainPorts_iff (h : w.IsRunBy mode r) :
    NamedApart r.mainPorts ↔ (Port.names w.ports).Nodup := by
  apply namedApart_iff_nodup
  rw [Record.mainPorts, h.mainContainer, container_ports, names_portValues]

/-- A workload without problems has no number of a port twice. -/
theorem portProblemsFrom_eq_nil_iff {what name : String} {seen : List Nat} {ps : List Port} :
    portProblemsFrom what name seen ps = [] ↔
      (∀ p ∈ ps, p.container ≠ 0 ∧ p.container ∉ seen) ∧ (ps.map (·.container)).Nodup := by
  induction ps generalizing seen with
  | nil => simp [portProblemsFrom]
  | cons p ps ih =>
    have hzero {b : Prop} [Decidable b] {s : String} :
        (if b then [s] else []) = [] ↔ ¬ b := by
      split <;> simp [*]
    rw [portProblemsFrom, List.append_eq_nil_iff, List.append_eq_nil_iff, hzero, hzero, ih,
      List.contains_iff_mem, List.forall_mem_cons, List.map_cons, List.nodup_cons]
    simp only [List.mem_cons, not_or, List.mem_map, not_exists, not_and]
    constructor
    · rintro ⟨⟨hnumber, hseen⟩, hrest, hnodup⟩
      refine ⟨⟨⟨hnumber, hseen⟩, fun q hq => ⟨(hrest q hq).1, (hrest q hq).2.2⟩⟩, ?_, hnodup⟩
      exact fun q hq hsame => (hrest q hq).2.1 hsame
    · rintro ⟨⟨⟨hnumber, hseen⟩, hrest⟩, hfirst, hnodup⟩
      refine ⟨⟨hnumber, hseen⟩, fun q hq => ?_, hnodup⟩
      exact ⟨(hrest q hq).1, hfirst q hq, (hrest q hq).2⟩

/-! ### Volumes -/

/-- The ConfigMaps that are mounted. -/
def mountedConfigMaps (w : Workload) : List ConfigMap := w.configMaps.filter (·.mountPath.isSome)

/-- The Secrets that are mounted. -/
def mountedSecrets (w : Workload) : List Secret := w.secrets.filter (·.mountPath.isSome)

/-- The names of volumes and of the storage that is a volume. -/
def ownVolumeNames (w : Workload) : StorageMode → List String
  | .claims => w.volumes.map (·.name) ++ w.storage.map (·.name)
  | .claimTemplates => w.volumes.map (·.name)

/-- What is mounted is named apart. No volume and no storage has the name that is made for mounted
configuration. -/
structure VolumesApart (w : Workload) (mode : StorageMode) : Prop where
  configMaps : (w.mountedConfigMaps.map (·.info.name)).Nodup
  secrets : (w.mountedSecrets.map (·.info.name)).Nodup
  own : (w.ownVolumeNames mode).Nodup
  config : ∀ c ∈ w.mountedConfigMaps, configVolumeName c ∉ w.ownVolumeNames mode
  secret : ∀ s ∈ w.mountedSecrets, secretVolumeName s ∉ w.ownVolumeNames mode

/-- The names of the volumes of the pod. -/
def volumeNames (w : Workload) (mode : StorageMode) : List String :=
  w.mountedConfigMaps.map configVolumeName ++ w.mountedSecrets.map secretVolumeName ++
    w.ownVolumeNames mode

theorem names_podVolumes (w : Workload) (mode : StorageMode) :
    (w.podVolumes mode).map Value.nameOf? = (w.volumeNames mode).map some := by
  cases mode <;>
    simp only [podVolumes, volumeNames, ownVolumeNames, mountedConfigMaps, mountedSecrets,
      List.map_append, List.map_map, List.append_assoc, List.append_nil] <;>
    rfl

theorem configVolumeName_ne (c : ConfigMap) (s : Secret) :
    configVolumeName c ≠ secretVolumeName s := by
  intro h
  have hlists := congrArg String.toList h
  rw [configVolumeName, secretVolumeName, String.toList_append, String.toList_append] at hlists
  exact absurd (List.cons.inj hlists).1 (by decide)

theorem nodup_volumeNames_iff : (w.volumeNames mode).Nodup ↔ w.VolumesApart mode := by
  have hconfigs : (w.mountedConfigMaps.map configVolumeName).Nodup ↔
      (w.mountedConfigMaps.map (·.info.name)).Nodup := nodup_map_front_iff "config-" _ _
  have hsecrets : (w.mountedSecrets.map secretVolumeName).Nodup ↔
      (w.mountedSecrets.map (·.info.name)).Nodup := nodup_map_front_iff "secret-" _ _
  have hmade : ∀ n ∈ w.mountedConfigMaps.map configVolumeName,
      ∀ m ∈ w.mountedSecrets.map secretVolumeName, n ≠ m := by
    intro n hn m hm
    obtain ⟨c, -, rfl⟩ := List.mem_map.mp hn
    obtain ⟨s, -, rfl⟩ := List.mem_map.mp hm
    exact configVolumeName_ne c s
  rw [volumeNames, List.nodup_append, List.nodup_append, hconfigs, hsecrets]
  constructor
  · rintro ⟨⟨hc, hs, -⟩, hown, hmeet⟩
    refine ⟨hc, hs, hown, ?_, ?_⟩
    · intro c hc hmem
      exact hmeet _ (List.mem_append_left _ (List.mem_map_of_mem hc)) _ hmem rfl
    · intro s hs hmem
      exact hmeet _ (List.mem_append_right _ (List.mem_map_of_mem hs)) _ hmem rfl
  · rintro ⟨hc, hs, hown, hconfig, hsecret⟩
    refine ⟨⟨hc, hs, hmade⟩, hown, ?_⟩
    rintro n hn m hm rfl
    obtain hn | hn := List.mem_append.mp hn
    · obtain ⟨c, hc, rfl⟩ := List.mem_map.mp hn
      exact hconfig c hc hm
    · obtain ⟨s, hs, rfl⟩ := List.mem_map.mp hn
      exact hsecret s hs hm

theorem IsRunBy.namedApart_podVolumes_iff (h : w.IsRunBy mode r) :
    NamedApart r.podVolumes ↔ w.VolumesApart mode := by
  rw [← nodup_volumeNames_iff]
  refine namedApart_iff_nodup ?_
  rw [h.podVolumes, names_podVolumes]

/-! ### Containers -/

/-- The names of the workload itself and of its companions, each of which has a container. -/
def containerNames (w : Workload) : List String := w.name :: w.companions.map (·.name)

theorem podTemplate_containers (w : Workload) (mode : StorageMode) (notes : Assoc String) :
    (((w.podTemplate mode notes).at "spec").at "containers").items =
      w.container :: (w.companions.filter fun c => !c.isInit).map Companion.toValue := by
  simp [podTemplate, Value.at_mapping, Assoc.get?_append, Assoc.get?_cons,
    get?_optionEntry_of_ne, get?_listEntry_of_ne, Value.items, Value.items?, Function.comp_def]

theorem podTemplate_initContainers (w : Workload) (mode : StorageMode) (notes : Assoc String) :
    (((w.podTemplate mode notes).at "spec").at "initContainers").items =
      (w.companions.filter (·.isInit)).map Companion.toValue := by
  have hselector : Assoc.get? (if w.nodeSelector.isEmpty then []
      else [("nodeSelector", Value.textMap w.nodeSelector)]) "initContainers" = none := by
    split <;> rfl
  rw [← items_listEntry "initContainers" ((w.companions.filter (·.isInit)).map Companion.toValue)]
  simp [podTemplate, Value.at_mapping, Assoc.get?_append, Assoc.get?_cons,
    get?_optionEntry_of_ne, get?_listEntry_of_ne, -List.isEmpty_iff, hselector]

theorem IsRunBy.namedApart_podContainers_iff (h : w.IsRunBy mode r) :
    NamedApart r.podContainers ↔ w.containerNames.Nodup := by
  obtain ⟨notes, h⟩ := h
  have hcompanions : ((w.companions.filter (·.isInit)) ++
      w.companions.filter fun c => !c.isInit).Perm w.companions := List.filter_append_perm _ _
  have hperm : (r.podContainers.map Value.nameOf?).Perm (w.containerNames.map some) := by
    rw [Record.podContainers, Record.podSpec, h, podTemplate_containers,
      podTemplate_initContainers, List.map_append, List.map_cons, List.map_map, List.map_map]
    refine List.perm_middle.trans (List.Perm.cons _ ?_)
    rw [← List.map_append, List.map_map]
    exact hcompanions.map _
  rw [NamedApart, hperm.nodup_iff, List.nodup_map_iff fun _ _ => Option.some.inj]

end Workload

end Rollout
