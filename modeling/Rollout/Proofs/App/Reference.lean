import Rollout.App.Stateful
import Rollout.App.Stateless
import Rollout.Proofs.Workload.Adoption
import Rollout.Proofs.Workload.Template

/-!
# References between the records of an application

The records of an application refer to each other by name. Each such name stands for a
record of the same list and namespace, or for a part of the pod that refers to it. The
only claims that may be missing are those that a volume names itself.
-/

namespace Rollout

open Record (Resolves)

/-- Everything that the pods of a record name is there. -/
structure Workload.PodsResolve (w : Workload) (rs : List Record) (r : Record) : Prop where
  /-- What the main container mounts is a volume of the pod or comes from a template. -/
  mounts : ∀ m ∈ r.mainMounts, ∃ n, m.nameOf? = some n ∧
    ((∃ v ∈ r.podVolumes, v.nameOf? = some n) ∨
      r.kind = "StatefulSet" ∧ ∃ t ∈ r.claimTemplates, (t.at "metadata").nameOf? = some n)
  /-- What is behind a volume is a record, or a claim that the volume was made for. -/
  volumes : ∀ v ∈ r.podVolumes, ∀ t ∈ v.volumeTargets, Resolves rs r t ∨
    t.kind = "PersistentVolumeClaim" ∧
      ∃ u ∈ w.volumes, v.nameOf? = some u.name ∧ u.source = .claim t.name
  environment : ∀ e ∈ r.mainVariableSources, ∀ t ∈ e.variableTargets, Resolves rs r t
  /-- No attached configuration is forgotten. -/
  attached : ∀ t, w.IsAttached t → (∃ v ∈ r.podVolumes, t ∈ v.volumeTargets) ∨
    ∃ e ∈ r.mainVariableSources, t ∈ e.variableTargets

/-- Every name by which the records of an application refer to others is that of a record. -/
structure Workload.Resolved (w : Workload) (rs : List Record) : Prop where
  runs : ∃ r ∈ rs, r.RunsApplication ∧ r.name? = some w.name ∧ r.namespace? = some w.info.ns
  pods : ∀ r ∈ rs, r.RunsApplication → w.PodsResolve rs r
  /-- The storage of a stateless application has a volume and a claim. -/
  storage : ∀ r ∈ rs, r.kind = "Deployment" → ∀ s ∈ w.storage, ∃ v ∈ r.podVolumes,
    v.nameOf? = some s.name ∧ ∃ n, v.volumeTargets = [⟨"PersistentVolumeClaim", n⟩] ∧
      Resolves rs r ⟨"PersistentVolumeClaim", n⟩
  scaleTarget : ∀ r ∈ rs, r.kind = "HorizontalPodAutoscaler" → ∃ n,
    (r.scaleTarget.at "kind").text? = some "Deployment" ∧ r.scaleTarget.nameOf? = some n ∧
      Resolves rs r ⟨"Deployment", n⟩
  serviceName : ∀ r ∈ rs, r.kind = "StatefulSet" → ∃ n,
    (r.spec.at "serviceName").text? = some n ∧ Resolves rs r ⟨"Service", n⟩

namespace Workload

variable {files : FileTree} {w : Workload} {mode : StorageMode} {rs : List Record} {r : Record}

theorem exists_use_of_isAttached (mode : StorageMode) {t : Target} (ht : w.IsAttached t) :
    (∃ v ∈ w.podVolumes mode, t ∈ v.volumeTargets) ∨
      ∃ e ∈ w.environmentSources, t ∈ e.variableTargets := by
  obtain ⟨c, hc, rfl⟩ | ⟨s, hs, rfl⟩ := ht
  · cases hpath : c.mountPath with
    | none =>
      have hnone : c.mountPath.isNone = true := by rw [hpath, Option.isNone_none]
      exact .inr ⟨_, mem_environmentSources_iff.mpr (.inl ⟨c, hc, hnone, rfl⟩),
        List.mem_singleton_self _⟩
    | some path =>
      have hsome : c.mountPath.isSome = true := by rw [hpath, Option.isSome_some]
      exact .inl ⟨_, mem_podVolumes_iff.mpr (.inl ⟨c, hc, hsome, rfl⟩),
        List.mem_singleton_self _⟩
  · cases hpath : s.mountPath with
    | none =>
      have hnone : s.mountPath.isNone = true := by rw [hpath, Option.isNone_none]
      exact .inr ⟨_, mem_environmentSources_iff.mpr (.inr ⟨s, hs, hnone, rfl⟩),
        List.mem_singleton_self _⟩
    | some path =>
      have hsome : s.mountPath.isSome = true := by rw [hpath, Option.isSome_some]
      exact .inl ⟨_, mem_podVolumes_iff.mpr (.inr (.inl ⟨s, hs, hsome, rfl⟩)),
        List.mem_singleton_self _⟩

/-- The pods of a workload name nothing that is missing if its configuration, its claims and
its claim templates are there. -/
theorem podsResolve_of_isRunBy (h : w.IsRunBy mode r)
    (hattached : ∀ t, w.IsAttached t → Resolves rs r t)
    (hclaims : mode = .claims →
      ∀ s ∈ w.storage, Resolves rs r ⟨"PersistentVolumeClaim", w.claimName s⟩)
    (htemplates : mode = .claimTemplates → r.kind = "StatefulSet" ∧
      ∀ s ∈ w.storage, ∃ t ∈ r.claimTemplates, (t.at "metadata").nameOf? = some s.name) :
    w.PodsResolve rs r where
  mounts := by
    intro m hm
    rw [h.mainMounts] at hm
    obtain ⟨n, hn, hv | ⟨hmode, s, hs, rfl⟩⟩ := exists_volume_of_mem_mounts mode hm
    · exact ⟨n, hn, .inl (by rwa [h.podVolumes])⟩
    · exact ⟨s.name, hn, .inr ⟨(htemplates hmode).1, (htemplates hmode).2 s hs⟩⟩
  volumes := by
    intro v hv t ht
    rw [h.podVolumes] at hv
    obtain hatt | ⟨hmode, s, hs, rfl⟩ | hown := target_of_mem_podVolumes hv ht
    · exact .inl (hattached t hatt)
    · exact .inl (hclaims hmode s hs)
    · exact .inr hown
  environment := by
    intro e he t ht
    rw [h.mainVariableSources] at he
    exact hattached t (target_of_mem_environmentSources he ht)
  attached := by
    intro t ht
    rw [h.podVolumes, h.mainVariableSources]
    exact exists_use_of_isAttached mode ht

/-- Attached configuration is among the records as soon as its own records are. -/
theorem resolves_of_isAttached {config : List Record} (h : w.configRecords files = .ok config)
    (hnear : w.AttachedNearby) (hsub : config ⊆ rs) (hns : r.namespace? = some w.info.ns)
    {t : Target} (ht : w.IsAttached t) : Resolves rs r t := by
  rw [Resolves, hns]
  obtain ⟨c, hc, rfl⟩ | ⟨s, hs, rfl⟩ := ht
  · exact List.map_subset _ hsub (configMap_mem_configRecords h hnear hc)
  · exact List.map_subset _ hsub (secret_mem_configRecords h hnear hs)

end Workload

/-- The kinds of records that run the pods of an application or scale it. -/
def applicationKinds : List String := ["Deployment", "StatefulSet", "HorizontalPodAutoscaler"]

theorem Workload.kind_notMem_of_mem_configRecords {files : FileTree} {w : Workload}
    {config : List Record} (h : w.configRecords files = .ok config) {r : Record}
    (hr : r ∈ config) : r.kind ∉ applicationKinds := by
  obtain hkind | hkind := kind_of_mem_configRecords h hr
  · rw [hkind]
    decide
  · rw [hkind]
    decide

namespace App

variable {files : FileTree} {a : App} {rs : List Record} {r : Record}

theorem kind_of_mem_attachedRecords (hr : r ∈ a.attachedRecords) :
    r.kind ∉ applicationKinds := by
  simp only [attachedRecords, List.mem_append, List.mem_flatMap, or_assoc] at hr
  obtain ⟨j, -, hr⟩ | ⟨j, -, hr⟩ | hr := hr
  · obtain rfl := List.mem_singleton.mp hr
    exact (by decide : "Job" ∉ applicationKinds)
  · obtain rfl := List.mem_singleton.mp hr
    exact (by decide : "CronJob" ∉ applicationKinds)
  · cases haccount : a.managedServiceAccount with
    | none => simp [haccount] at hr
    | some account =>
      rw [haccount] at hr
      obtain rfl := List.mem_singleton.mp hr
      exact (by decide : "ServiceAccount" ∉ applicationKinds)

theorem kind_of_mem_ingressRecords
    (hr : r ∈ a.ingresses.flatMap fun i => (a.routed i).records) : r.kind ∉ applicationKinds := by
  obtain ⟨i, -, hr⟩ := List.mem_flatMap.mp hr
  obtain rfl := List.mem_singleton.mp hr
  exact (by decide : "Ingress" ∉ applicationKinds)

/-- The records of an application: its Deployment, its configuration and its claims are among
them, and at most one record scales it. -/
theorem parts_of_records (h : a.records files = .ok rs) : ∃ notes config,
    a.workload.configRecords files = .ok config ∧ a.deploymentRecord notes ∈ rs ∧
    config ⊆ rs ∧ a.claimRecords ⊆ rs ∧
    ∀ r ∈ rs, r = a.deploymentRecord notes ∨ a.scaling.record? a.info = some r ∨
      r.kind ∉ applicationKinds := by
  obtain ⟨notes, -, h⟩ := bind_eq_ok_iff.mp h
  obtain ⟨config, hconfig, h⟩ := bind_eq_ok_iff.mp h
  obtain rfl := Except.ok.inj h
  refine ⟨notes, config, hconfig, ?_, ?_, ?_, ?_⟩
  · simp
  · intro r hr
    simp [hr]
  · intro r hr
    simp [hr]
  · intro r hr
    simp only [List.cons_append, List.mem_cons, List.mem_append, Option.mem_toList,
      or_assoc] at hr
    obtain hr | hr | hr | hr | hr | hr | hr | hr := hr
    · exact .inl hr
    · split at hr
      · obtain rfl := List.mem_singleton.mp hr
        exact .inr (.inr (by decide : "Service" ∉ applicationKinds))
      · exact absurd hr List.not_mem_nil
    · have hingress := Workload.kind_notMem_of_mem_adopt (fun _ => kind_of_mem_ingressRecords) hr
      exact .inr (.inr hingress)
    · exact .inr (.inr (Workload.kind_notMem_of_mem_configRecords hconfig hr))
    · obtain ⟨s, -, rfl⟩ := List.mem_map.mp hr
      exact .inr (.inr (by decide : "PersistentVolumeClaim" ∉ applicationKinds))
    · have hmore := Workload.kind_notMem_of_mem_adopt (fun _ => kind_of_mem_attachedRecords) hr
      exact .inr (.inr hmore)
    · exact .inr (.inl hr)
    · obtain ⟨m, -, rfl⟩ := Option.map_eq_some_iff.mp hr
      exact .inr (.inr (by decide : "ServiceMonitor" ∉ applicationKinds))

theorem resolved_of_records (hnear : a.workload.AttachedNearby) (h : a.records files = .ok rs) :
    a.workload.Resolved rs := by
  obtain ⟨notes, config, hconfig, hdeployment, hsub, hclaims, horigin⟩ := parts_of_records h
  have hid : (a.deploymentRecord notes).identity =
      ⟨"Deployment", a.info.name, some a.info.ns⟩ := Record.identity_of_meta _ _ _ _ _
  have hns : (a.deploymentRecord notes).namespace? = some a.info.ns := (Identity.mk.inj hid).2.2
  have hclaim : ∀ s ∈ a.workload.storage, Resolves rs (a.deploymentRecord notes)
      ⟨"PersistentVolumeClaim", a.workload.claimName s⟩ := by
    intro s hs
    rw [Resolves, hns]
    exact List.mem_map.mpr ⟨_, hclaims (List.mem_map_of_mem hs), Record.identity_of_meta _ _ _ _ _⟩
  have hrun : a.workload.IsRunBy .claims (a.deploymentRecord notes) := ⟨notes, rfl⟩
  -- the only other record of one of these kinds is that by which the Deployment is scaled
  have hcases : ∀ r ∈ rs, r.kind ∈ applicationKinds → r.kind ≠ "HorizontalPodAutoscaler" →
      r = a.deploymentRecord notes := by
    intro r hr hkind hne
    obtain hr | hr | hr := horigin r hr
    · exact hr
    · obtain ⟨b, -, rfl⟩ := Option.map_eq_some_iff.mp hr
      exact absurd rfl hne
    · exact absurd hkind hr
  refine ⟨⟨_, hdeployment, .inl rfl, rfl, hns⟩, ?_, ?_, ?_, ?_⟩
  · intro r hr hruns
    have hkind : r.kind ∈ applicationKinds ∧ r.kind ≠ "HorizontalPodAutoscaler" := by
      obtain h | h := hruns <;> rw [h] <;> decide
    obtain rfl := hcases r hr hkind.1 hkind.2
    exact Workload.podsResolve_of_isRunBy hrun
      (fun t => Workload.resolves_of_isAttached hconfig hnear hsub hns) (fun _ => hclaim) nofun
  · intro r hr hkind s hs
    obtain rfl := hcases r hr (by rw [hkind]; decide) (by rw [hkind]; decide)
    refine ⟨a.workload.storageVolume s, ?_, rfl, _, rfl, hclaim s hs⟩
    rw [hrun.podVolumes]
    exact Workload.mem_podVolumes_iff.mpr (.inr (.inr (.inr ⟨rfl, s, hs, rfl⟩)))
  · intro r hr hkind
    obtain rfl | hscale | hnot := horigin r hr
    · exact absurd hkind (by decide : "Deployment" ≠ "HorizontalPodAutoscaler")
    · obtain ⟨b, -, rfl⟩ := Option.map_eq_some_iff.mp hscale
      refine ⟨a.info.name, rfl, rfl, ?_⟩
      exact List.mem_map.mpr ⟨_, hdeployment, hid⟩
    · exact absurd (by rw [hkind]; decide) hnot
  · intro r hr hkind
    obtain rfl := hcases r hr (by rw [hkind]; decide) (by rw [hkind]; decide)
    exact absurd hkind (by decide : "Deployment" ≠ "StatefulSet")

end App

namespace StatefulApp

variable {files : FileTree} {a : StatefulApp} {rs : List Record}

/-- The records of a stateful application: its StatefulSet, its Service and its configuration
are among them. -/
theorem parts_of_records (h : a.records files = .ok rs) : ∃ notes config,
    a.workload.configRecords files = .ok config ∧ a.statefulSetRecord notes ∈ rs ∧
    a.serviceRecord ∈ rs ∧ config ⊆ rs ∧
    ∀ r ∈ rs, r = a.statefulSetRecord notes ∨ r.kind ∉ applicationKinds := by
  obtain ⟨notes, -, h⟩ := bind_eq_ok_iff.mp h
  obtain ⟨config, hconfig, h⟩ := bind_eq_ok_iff.mp h
  obtain rfl := Except.ok.inj h
  refine ⟨notes, config, hconfig, ?_, ?_, ?_, ?_⟩
  · simp
  · simp
  · intro r hr
    simp [hr]
  · intro r hr
    simp only [List.cons_append, List.mem_cons, List.mem_append] at hr
    obtain hr | rfl | hr | hr := hr
    · exact .inl hr
    · exact .inr (by decide : "Service" ∉ applicationKinds)
    · cases hbackup : a.backup with
      | none => simp [hbackup] at hr
      | some b =>
        rw [hbackup] at hr
        obtain rfl := List.mem_singleton.mp hr
        exact .inr (by decide : "CronJob" ∉ applicationKinds)
    · exact .inr (Workload.kind_notMem_of_mem_configRecords hconfig hr)

theorem exists_claimTemplate (a : StatefulApp) (notes : Assoc String) {s : Storage}
    (hs : s ∈ a.workload.storage) :
    ∃ t ∈ (a.statefulSetRecord notes).claimTemplates,
      (t.at "metadata").nameOf? = some s.name := by
  have htemplates : (a.statefulSetRecord notes).claimTemplates = a.workload.storage.map fun s =>
      .mapping [("metadata", .mapping [("name", .text s.name)]), ("spec", s.claimSpec)] := by
    rw [← items_listEntry "volumeClaimTemplates" (a.workload.storage.map _)]
    simp [Record.claimTemplates, Record.spec, Record.toValue, statefulSetRecord,
      Value.at_mapping, Assoc.get?_cons]
  rw [htemplates]
  exact ⟨_, List.mem_map_of_mem hs, rfl⟩

theorem resolved_of_records (hnear : a.workload.AttachedNearby) (h : a.records files = .ok rs) :
    a.workload.Resolved rs := by
  obtain ⟨notes, config, hconfig, hset, hservice, hsub, horigin⟩ := parts_of_records h
  have hns : (a.statefulSetRecord notes).namespace? = some a.info.ns := rfl
  have hrun : a.workload.IsRunBy .claimTemplates (a.statefulSetRecord notes) := ⟨notes, rfl⟩
  have hcases : ∀ r ∈ rs, r.kind ∈ applicationKinds → r = a.statefulSetRecord notes :=
    fun r hr hkind => (horigin r hr).resolve_right fun hnot => hnot hkind
  refine ⟨⟨_, hset, .inr rfl, rfl, hns⟩, ?_, ?_, ?_, ?_⟩
  · intro r hr hruns
    obtain rfl := hcases r hr (by obtain h | h := hruns <;> rw [h] <;> decide)
    exact Workload.podsResolve_of_isRunBy hrun
      (fun t => Workload.resolves_of_isAttached hconfig hnear hsub hns) nofun
      (fun _ => ⟨rfl, fun s => a.exists_claimTemplate notes⟩)
  · intro r hr hkind
    obtain rfl := hcases r hr (by rw [hkind]; decide)
    exact absurd hkind (by decide : "StatefulSet" ≠ "Deployment")
  · intro r hr hkind
    obtain rfl := hcases r hr (by rw [hkind]; decide)
    exact absurd hkind (by decide : "StatefulSet" ≠ "HorizontalPodAutoscaler")
  · intro r hr hkind
    obtain rfl := hcases r hr (by rw [hkind]; decide)
    exact ⟨a.info.name, rfl, List.mem_map.mpr ⟨_, hservice, rfl⟩⟩

end StatefulApp

/-- The records that a workload is generated to, as a stateless or a stateful application. -/
def Workload.GeneratedTo (files : FileTree) (w : Workload) (rs : List Record) : Prop :=
  (∃ a : App, a.workload = w ∧ a.records files = .ok rs) ∨
    ∃ a : StatefulApp, a.workload = w ∧ a.records files = .ok rs

/-- One record runs the pods of a workload, under the name of the workload, and no other one runs
any. -/
theorem Workload.exists_running {files : FileTree} {w : Workload} {rs : List Record}
    (h : w.GeneratedTo files rs) :
    ∃ x ∈ rs, x.RunsApplication ∧ x.name? = some w.name ∧ (∃ mode, w.IsRunBy mode x) ∧
      ∀ r ∈ rs, r.RunsApplication → r = x := by
  have happlication : ∀ r : Record, r.RunsApplication → r.kind ∈ applicationKinds := by
    rintro r (h | h) <;> rw [h] <;> decide
  obtain ⟨a, rfl, h⟩ | ⟨a, rfl, h⟩ := h
  · obtain ⟨notes, -, -, hmem, -, -, horigin⟩ := App.parts_of_records h
    refine ⟨_, hmem, .inl rfl, rfl, ⟨.claims, notes, rfl⟩, fun r hr hruns => ?_⟩
    obtain hr | hscale | hnot := horigin r hr
    · exact hr
    · obtain ⟨b, -, rfl⟩ := Option.map_eq_some_iff.mp hscale
      have hkind : "HorizontalPodAutoscaler" ∉ ["Deployment", "StatefulSet"] := by decide
      exact absurd hruns (Record.not_runsApplication rfl hkind)
    · exact absurd (happlication r hruns) hnot
  · obtain ⟨notes, -, -, hmem, -, -, horigin⟩ := StatefulApp.parts_of_records h
    refine ⟨_, hmem, .inr rfl, rfl, ⟨.claimTemplates, notes, rfl⟩, fun r hr hruns => ?_⟩
    exact (horigin r hr).resolve_right fun hnot => hnot (happlication r hruns)

/-- If no attached configuration was given a namespace of its own other than that of the
application, every name in the records of the application stands for one of them. -/
theorem Workload.resolved_of_generatedTo {files : FileTree} {w : Workload} {rs : List Record}
    (hnear : w.AttachedNearby) (h : w.GeneratedTo files rs) : w.Resolved rs := by
  obtain ⟨a, rfl, h⟩ | ⟨a, rfl, h⟩ := h
  · exact a.resolved_of_records hnear h
  · exact a.resolved_of_records hnear h

/-- An application in a namespace of its own, with a mounted ConfigMap, a Secret for
variables and storage. -/
theorem Workload.resolved_shop :
    let w := ((Workload.named "shop").mapInfo (·.withNamespace "web")).addConfigMap
      ((ConfigMap.named "settings").withMountPath "/etc/shop") |>.addSecret (.named "keys")
      |>.addStorage { name := "data", mountPath := "/data", size := "1Gi" }
    w.AttachedNearby ∧ ∃ rs, w.GeneratedTo .empty rs ∧ w.Resolved rs := by
  intro w
  have hnear : w.AttachedNearby := by
    constructor
    · intro c hc
      obtain rfl := List.mem_singleton.mp hc
      exact .inl rfl
    · intro s hs
      obtain rfl := List.mem_singleton.mp hs
      exact .inl rfl
  have hgenerated : ∃ rs, w.GeneratedTo .empty rs := ⟨_, .inl ⟨{ workload := w }, rfl, rfl⟩⟩
  obtain ⟨rs, h⟩ := hgenerated
  exact ⟨hnear, rs, h, resolved_of_generatedTo hnear h⟩

end Rollout
