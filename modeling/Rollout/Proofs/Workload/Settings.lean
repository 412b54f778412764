import Rollout.Proofs.Config
import Rollout.Proofs.Workload.Parts
import Rollout.Workload.Basic

/-!
# Workloads that have been set up

The settings of a workload keep its numbers those of their types and its sorted mappings
sorted. A workload of this kind is read back from its fields, so that nothing of it is lost
on the way through a file, the configuration attached to it included.
-/

namespace Rollout

open Codec Fields

theorem BuildContext.returns (b : BuildContext) : BuildContext.codec.Returns b :=
  returns_struct (by decide)
    (.seq readsBack_orderedText <|
      .seq readsBack_optionalText <|
      .map _ readsBack_requiredText)
    rfl

namespace Workload

/-- The settings of a workload. -/
inductive IsSetting : (Workload → Workload) → Prop where
  | info {f : Meta → Meta} (hf : Meta.IsSetting f) : IsSetting (·.mapInfo f)
  | image (image : String) : IsSetting (·.withImage image)
  | build (context : String) : IsSetting (·.withBuild context)
  | dockerfile (file : String) : IsSetting (·.withDockerfile file)
  | buildArg (key value : String) : IsSetting (·.withBuildArg key value)
  | imagePullPolicy (policy : String) : IsSetting (·.withImagePullPolicy policy)
  | command (command : List String) : IsSetting (·.withCommand command)
  | args (args : List String) : IsSetting (·.withArgs args)
  | port {container : Nat} (h : container < UInt16.size) : IsSetting (·.withPort container)
  | portMapping {host container : Nat} (hhost : host < UInt16.size) (h : container < UInt16.size) :
    IsSetting (·.withPortMapping host container)
  | namedPort {container : Nat} (name : String) (h : container < UInt16.size) :
    IsSetting (·.withNamedPort name container)
  | variable (key value : String) : IsSetting (·.withVariable key value)
  | secret {s : Secret} (h : s.Built) : IsSetting (·.addSecret s)
  | configMap {c : ConfigMap} (h : c.Built) : IsSetting (·.addConfigMap c)
  | requirements (r : Requirements) : IsSetting (·.withRequirements r)
  | liveness {p : Probe} (h : p.Fits) : IsSetting (·.withLiveness p)
  | readiness {p : Probe} (h : p.Fits) : IsSetting (·.withReadiness p)
  | healthCheck (path : String) : IsSetting (·.withHealthCheck path)
  | companion {c : Companion} (h : c.Fits) : IsSetting (·.addCompanion c)
  | volume (v : Volume) : IsSetting (·.addVolume v)
  | storage (s : Storage) : IsSetting (·.addStorage s)
  | dependency (service : String) : IsSetting (·.addDependency service)
  | connection (service : String) : IsSetting (·.addConnection service)
  | metrics {port : Nat} (h : port < UInt16.size) (path : String) :
    IsSetting (·.withMetrics port path)
  | serviceMonitor : IsSetting (·.withServiceMonitor)
  | serviceAccountName (name : String) : IsSetting (·.withServiceAccountName name)
  | nodeSelector (key value : String) : IsSetting (·.withNodeSelector key value)
  | restart (policy : String) : IsSetting (·.withRestart policy)

/-- All numbers are those of their types, and all mappings without an order of their own
are sorted. -/
structure Fits (w : Workload) : Prop where
  info : w.info.Fits
  ports : ∀ p ∈ w.ports, p.Fits
  secrets : ∀ s ∈ w.secrets, s.Fits
  configMaps : ∀ c ∈ w.configMaps, c.Fits
  liveness : ∀ p ∈ w.liveness, p.Fits
  readiness : ∀ p ∈ w.readiness, p.Fits
  companions : ∀ c ∈ w.companions, c.Fits
  metrics : ∀ m ∈ w.metrics, m.port < UInt16.size
  nodeSelector : w.nodeSelector.IsSorted

theorem fits_named (name : String) : (named name).Fits where
  info := Meta.fits_of_empty name defaultNamespace
  ports := nofun
  secrets := nofun
  configMaps := nofun
  liveness := nofun
  readiness := nofun
  companions := nofun
  metrics := nofun
  nodeSelector := List.Pairwise.nil

theorem Fits.primaryPort {w : Workload} (h : w.Fits) : w.primaryPort.getD 80 < UInt16.size := by
  unfold Workload.primaryPort
  cases hports : w.ports with
  | nil => decide
  | cons p ports => exact (h.ports p (hports ▸ List.mem_cons_self)).container

theorem Fits.addPort {w : Workload} {p : Port} (h : w.Fits) (hp : p.Fits) : (w.addPort p).Fits :=
  { h with ports := forall_mem_concat h.ports hp }

theorem IsSetting.fits {f : Workload → Workload} {w : Workload} (hf : IsSetting f) (h : w.Fits) :
    (f w).Fits := by
  cases hf with
  | info hf => exact { h with info := hf.fits h.info }
  | port hport => exact h.addPort ⟨hport, nofun⟩
  | portMapping hhost hport => exact h.addPort ⟨hport, forall_mem_some hhost⟩
  | namedPort name hport => exact h.addPort ⟨hport, nofun⟩
  | secret hs => exact { h with secrets := forall_mem_concat h.secrets hs.fits }
  | configMap hc => exact { h with configMaps := forall_mem_concat h.configMaps hc.fits }
  | liveness hp => exact { h with liveness := forall_mem_some hp }
  | readiness hp => exact { h with readiness := forall_mem_some hp }
  | healthCheck path =>
    have hprobe := Probe.fits_http h.primaryPort path
    have hready : (Probe.withInitialDelay (.http path (w.primaryPort.getD 80)) 5).Fits :=
      { hprobe with initialDelay := (by decide : 5 < UInt32.size) }
    exact { h with liveness := forall_mem_some hprobe, readiness := forall_mem_some hready }
  | companion hc => exact { h with companions := forall_mem_concat h.companions hc }
  | metrics hport path => exact { h with metrics := forall_mem_some hport }
  | serviceMonitor => exact { h with metrics := forall_mem_map h.metrics fun m hm => hm }
  | nodeSelector key value =>
    exact { h with nodeSelector := h.nodeSelector.insertSorted key value }
  -- no other setting gives it a number or a sorted mapping
  | _ => exact { h with }

/-- The keys of the fields of a workload. -/
def keys : List String :=
  Meta.keys ++
    ["image", "build", "imagePullPolicy", "command", "args", "ports", "env", "secrets",
      "configMaps", "resources", "liveness", "readiness", "companions", "volumes", "storage",
      "dependsOn", "connectsTo", "metrics", "serviceAccount", "nodeSelector", "restart"]

theorem readsBack_fields {w : Workload} (h : w.Fits) : fields.ReadsBack keys w w := by
  have hinfo := Meta.readsBack_fields h.info
  have hports : ∀ p ∈ w.ports, Port.codec.Returns p := fun p hp => Port.returns (h.ports p hp)
  have hsecrets : ∀ s ∈ w.secrets, Secret.codec.Returns s :=
    fun s hs => (Secret.returnsBehind (h.secrets s hs)).returns
  have hconfigMaps : ∀ c ∈ w.configMaps, ConfigMap.codec.Returns c :=
    fun c hc => (ConfigMap.returnsBehind (h.configMaps c hc)).returns
  have hliveness : ∀ p ∈ w.liveness, Probe.codec.Returns p :=
    fun p hp => Probe.returns (h.liveness p hp)
  have hreadiness : ∀ p ∈ w.readiness, Probe.codec.Returns p :=
    fun p hp => Probe.returns (h.readiness p hp)
  have hcompanions : ∀ c ∈ w.companions, Companion.codec.Returns c :=
    fun c hc => Companion.returns (h.companions c hc)
  have hmetrics : ∀ m ∈ w.metrics, Metrics.codec.Returns m :=
    fun m hm => Metrics.returns (h.metrics m hm)
  exact .congr
    (.seq readsBack_optionalText <|
      .seq (readsBack_sortedText h.nodeSelector) <|
      .seq readsBack_optionalText <|
      .seq (readsBack_optional nofun hmetrics) <|
      .seq readsBack_itemsText <|
      .seq readsBack_itemsText <|
      .seq (readsBack_items fun s _ => s.returns) <|
      .seq (readsBack_items fun v _ => v.returns) <|
      .seq (readsBack_items hcompanions) <|
      .seq (readsBack_optional nofun hreadiness) <|
      .seq (readsBack_optional nofun hliveness) <|
      .seq (readsBack_optional nofun fun r _ => r.returns) <|
      .seq (readsBack_items hconfigMaps) <|
      .seq (readsBack_items hsecrets) <|
      .seq readsBack_orderedText <|
      .seq (readsBack_items hports) <|
      .seq readsBack_itemsText <|
      .seq readsBack_itemsText <|
      .seq readsBack_optionalText <|
      .seq (readsBack_optional nofun fun b _ => b.returns) <|
      .seq readsBack_optionalText <|
      .map _ (readsBack_part hinfo))
    rfl rfl

end Workload

end Rollout
