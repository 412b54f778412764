import Rollout.Proofs.App.Service
import Rollout.Proofs.Workload.ListKey

/-!
# Names in the lists of an application

The Service of an application names its ports as the main container does. It may have one more port,
for metrics, whose name is always the same. Of all the names in the lists of an application only the
numbers of ports are compared when its problems are told, so that two equal names in one list are
no problem.
-/

namespace Rollout.App

variable {files : FileTree} {rs : List Record} {a : App}

/-! ### The ports of the Service -/

/-- The port for metrics, if the Service has one, has a name that is given to no other port. -/
def MetricsApart (a : App) : Prop :=
  a.metricsPorts ≠ [] → "metrics" ∉ Port.givenNames a.workload.ports

theorem names_containerPorts (a : App) :
    a.containerPorts.map (·.name) = (Port.names a.workload.ports).map some := by
  refine List.ext_getElem (by simp [containerPorts, Port.names]) fun i _ _ => ?_
  simp only [containerPorts, Port.names, List.getElem_map, List.getElem_mapIdx]

/-- The Service has the port for metrics, or not. -/
theorem metricsPorts_eq (a : App) : a.metricsPorts = [] ∨
    ∃ port, a.metricsPorts = [{ port, targetPort := port, name := some "metrics" }] := by
  unfold metricsPorts
  split
  · exact .inl rfl
  · rename_i port hport
    split
    · exact .inl rfl
    · exact .inr ⟨port, rfl⟩

/-- The name of the port for metrics is not made for any other one. -/
theorem metrics_notMem_madeNames (ps : List Port) : "metrics" ∉ Port.madeNames ps := by
  cases ps with
  | nil => exact List.not_mem_nil
  | cons p ps =>
    have hlater : "metrics" ∉ (ps.filter (·.name.isNone)).map Port.madeName :=
      Port.notMem_map_madeName (by decide) _
    rw [Port.madeNames]
    split
    · exact List.not_mem_cons_of_ne_of_not_mem (by decide) hlater
    · exact hlater

/-- The names of the ports of the Service, if the workload has any ports or metrics. -/
theorem nodup_serviceNames_iff (h : (a.workload.ports.map (·.container)).Nodup) :
    ((a.containerPorts ++ a.metricsPorts).map (·.name)).Nodup ↔
      Port.NamesApart a.workload.ports ∧ a.MetricsApart := by
  have hports : ((Port.names a.workload.ports).map some).Nodup ↔
      Port.NamesApart a.workload.ports := by
    rw [List.nodup_map_iff fun _ _ => Option.some.inj, Port.nodup_names_iff h]
  rw [List.map_append, names_containerPorts, MetricsApart]
  obtain hnone | ⟨port, hsome⟩ := a.metricsPorts_eq
  · rw [hnone, List.map_nil, List.append_nil, hports]
    exact ⟨fun hnames => ⟨hnames, fun hne => absurd rfl hne⟩, And.left⟩
  · have hmem : some "metrics" ∈ (Port.names a.workload.ports).map some ↔
        "metrics" ∈ Port.givenNames a.workload.ports := by
      rw [List.mem_map_of_injective fun _ _ => Option.some.inj,
        (Port.perm_names a.workload.ports).mem_iff, List.mem_append]
      exact or_iff_left (metrics_notMem_madeNames a.workload.ports)
    rw [hsome, List.map_singleton, List.nodup_append, hports]
    constructor
    · rintro ⟨hnames, -, hmeet⟩
      refine ⟨hnames, fun _ hgiven => ?_⟩
      exact hmeet _ (hmem.mpr hgiven) _ (List.mem_singleton_self _) rfl
    · rintro ⟨hnames, hmetrics⟩
      refine ⟨hnames, List.nodup_singleton _, ?_⟩
      rintro n hn m hm rfl
      obtain rfl := List.mem_singleton.mp hm
      exact hmetrics (List.cons_ne_nil _ _) (hmem.mp hn)

/-- All these ports have names. -/
theorem exists_name_of_mem {p : ServicePort} (hp : p ∈ a.containerPorts ++ a.metricsPorts) :
    ∃ n, p.name = some n := by
  obtain hp | hp := List.mem_append.mp hp
  · obtain ⟨i, hi, rfl⟩ := List.mem_mapIdx.mp hp
    exact ⟨_, rfl⟩
  · obtain hnone | ⟨port, hsome⟩ := a.metricsPorts_eq
    · rw [hnone] at hp
      exact absurd hp List.not_mem_nil
    · rw [hsome] at hp
      obtain rfl := List.mem_singleton.mp hp
      exact ⟨_, rfl⟩

/-- The Service names its ports apart as the workload does, if the port for metrics has a name of its
own. -/
theorem namedApart_servicePorts_iff (h : (a.workload.ports.map (·.container)).Nodup) :
    NamedApart a.serviceRecord.servicePorts ↔
      Port.NamesApart a.workload.ports ∧ a.MetricsApart := by
  have hvalues : a.serviceRecord.servicePorts.map Value.nameOf? =
      a.servicePorts.map fun p => some (p.name.getD "") := by
    rw [servicePorts_serviceRecord, List.map_map]
    rfl
  rw [← nodup_serviceNames_iff h, NamedApart, hvalues, servicePorts]
  split
  · rename_i hempty
    rw [List.isEmpty_iff.mp hempty]
    exact iff_of_true (List.nodup_singleton _) List.nodup_nil
  · have hnames : ∀ p ∈ a.containerPorts ++ a.metricsPorts, some (p.name.getD "") = p.name := by
      intro p hp
      obtain ⟨n, hn⟩ := exists_name_of_mem hp
      rw [hn, Option.getD_some]
    rw [List.map_congr_left hnames]

/-! ### All lists -/

/-- An application without problems has no number of a port twice. -/
theorem nodup_numbers_of_problems (h : a.problems files = []) :
    (a.workload.ports.map (·.container)).Nodup := by
  have hports : Workload.portProblemsFrom "App" a.workload.name [] a.workload.ports = [] := by
    simp only [problems, Workload.problems, List.append_eq_nil_iff, and_assoc] at h
    exact h.2.2.1
  exact (Workload.portProblemsFrom_eq_nil_iff.mp hports).2

/-- Let an application have no problems and let its records be made. There is one Deployment. The
ports of its main container are named apart just where no name is given to two ports, and none is
given to one that is made for another. The ports of the Service are where, moreover, the port for
metrics has a name of its own. The volumes of the pod are where what is mounted is named apart and no
volume or storage has the name that is made for mounted configuration, and its containers where the
companions are named apart from each other and from the application. -/
theorem namedApart_iff (h : a.records files = .ok rs) (hproblems : a.problems files = []) :
    ∃ deployment, (∀ r, r ∈ rs ∧ r.kind = "Deployment" ↔ r = deployment) ∧
      (NamedApart deployment.mainPorts ↔ Port.NamesApart a.workload.ports) ∧
      (∀ service ∈ rs, service.kind = "Service" → (NamedApart service.servicePorts ↔
        Port.NamesApart a.workload.ports ∧ a.MetricsApart)) ∧
      (NamedApart deployment.podVolumes ↔ a.workload.VolumesApart .claims) ∧
      (NamedApart deployment.podContainers ↔ a.workload.containerNames.Nodup) := by
  obtain ⟨notes, hdeployment⟩ := deployment_mem_iff h
  have hrun : a.workload.IsRunBy .claims (a.deploymentRecord notes) := ⟨notes, rfl⟩
  have hnumbers := nodup_numbers_of_problems hproblems
  refine ⟨a.deploymentRecord notes, hdeployment, ?_, ?_, hrun.namedApart_podVolumes_iff,
    hrun.namedApart_podContainers_iff⟩
  · rw [hrun.namedApart_mainPorts_iff, Port.nodup_names_iff hnumbers]
  · intro service hservice hkind
    obtain ⟨-, rfl⟩ := (service_mem_iff h).mp ⟨hservice, hkind⟩
    exact namedApart_servicePorts_iff hnumbers

/-- An application with a port for metrics, a mounted ConfigMap, a volume and a companion. -/
theorem namedApart_web :
    let settings : ConfigMap := { info := { name := "settings" }, mountPath := some "/etc/web" }
    let w := ((((Workload.named "web").withImage "nginx:1.27").withPort 8080).withNamedPort "admin"
      9090).addConfigMap settings
    let a : App := { workload := { w with
      metrics := some { port := 9100, serviceMonitor := true }
      volumes := [⟨"cache", "/cache", .emptyDir, false⟩]
      companions := [{ name := "proxy", image := "envoy:1.30" }] } }
    ∃ rs deployment service, a.records .empty = .ok rs ∧ a.problems .empty = [] ∧
      deployment ∈ rs ∧ service ∈ rs ∧ service.kind = "Service" ∧
      NamedApart deployment.mainPorts ∧ NamedApart service.servicePorts ∧
      NamedApart deployment.podVolumes ∧ NamedApart deployment.podContainers := by
  intro settings w a
  obtain ⟨rs, hrs⟩ : ∃ rs, a.records .empty = .ok rs := ⟨_, rfl⟩
  have hproblems : a.problems .empty = [] := by decide +kernel
  have hports : Port.NamesApart a.workload.ports := ⟨by decide, by decide⟩
  have hmetrics : a.MetricsApart := fun _ => by decide
  have hvolumes : a.workload.VolumesApart .claims :=
    ⟨by decide, by decide, by decide, by decide, by decide⟩
  obtain ⟨deployment, hdeployment, hmain, hservice, hpod, hcontainers⟩ :=
    namedApart_iff hrs hproblems
  obtain ⟨hmem, hkind⟩ := (service_mem_iff hrs).mpr ⟨rfl, rfl⟩
  exact ⟨rs, deployment, a.serviceRecord, hrs, hproblems, ((hdeployment deployment).mpr rfl).1, hmem,
    hkind, hmain.mpr hports, (hservice _ hmem hkind).mpr ⟨hports, hmetrics⟩, hpod.mpr hvolumes,
    hcontainers.mpr (by decide)⟩

/-- The first port has no name, and the second one is given the name that is made for the first. No
problem is told, and both ports have one name in the Deployment and in the Service. -/
theorem ports_share_http :
    let a : App := { workload := (((Workload.named "web").withImage "nginx:1.27").withPort
      8080).withNamedPort "http" 9090 }
    ∃ rs deployment service, a.records .empty = .ok rs ∧ a.problems .empty = [] ∧
      deployment ∈ rs ∧ deployment.kind = "Deployment" ∧ service ∈ rs ∧ service.kind = "Service" ∧
      deployment.mainPorts.map Value.nameOf? = [some "http", some "http"] ∧
      service.servicePorts.map Value.nameOf? = [some "http", some "http"] ∧
      ¬ NamedApart deployment.mainPorts ∧ ¬ NamedApart service.servicePorts := by
  intro a
  obtain ⟨rs, hrs⟩ : ∃ rs, a.records .empty = .ok rs := ⟨_, rfl⟩
  obtain ⟨notes, hdeployment⟩ := deployment_mem_iff hrs
  obtain ⟨hmem, hkind⟩ := (hdeployment _).mpr rfl
  obtain ⟨hservice, hservice'⟩ := (service_mem_iff hrs).mpr ⟨rfl, rfl⟩
  have hmain : (a.deploymentRecord notes).mainPorts.map Value.nameOf? =
      [some "http", some "http"] := rfl
  have hports : a.serviceRecord.servicePorts.map Value.nameOf? =
      [some "http", some "http"] := rfl
  refine ⟨rs, a.deploymentRecord notes, a.serviceRecord, hrs, by decide +kernel, hmem, hkind,
    hservice, hservice', hmain, hports, ?_, ?_⟩
  · rw [NamedApart, hmain]
    decide
  · rw [NamedApart, hports]
    decide

end Rollout.App
