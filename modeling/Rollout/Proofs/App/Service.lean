import Rollout.Proofs.App.Nested
import Rollout.Proofs.Record.Reference

/-!
# The Service of an application and its monitor

The Service has the name of the application and lives where the application does, and so does the
record by which metrics are collected. That record is led to a port of the Service. But it looks for
the Service by the label that pods are found by, and of the labels of records this is none. So it
finds the Service only if the definition gives it this very label.
-/

namespace Rollout

/-! ### Labels -/

/-- Of the pairs that are put into a mapping, the last one of a key counts. -/
theorem Assoc.get?_foldl_insertSorted {α : Type} (pairs m : Assoc α) (key : String) :
    (pairs.foldl (fun m e => m.insertSorted e.1 e.2) m).get? key =
      (get? pairs.reverse key).or (m.get? key) := by
  induction pairs generalizing m with
  | nil => rfl
  | cons e pairs ih =>
    obtain ⟨k, v⟩ := e
    rw [List.foldl_cons, ih, get?_insertSorted, List.reverse_cons, get?_append, get?_cons,
      Option.or_assoc]
    split <;> rfl

namespace Meta

/-- The label that a definition gives for a key. -/
def givenLabel? (m : Meta) (key : String) : Option String := Assoc.get? m.labels.reverse key

/-- The labels that all records have. -/
def standardLabels (m : Meta) : Assoc String :=
  Assoc.sorted [(Label.name, m.name), (Label.managedBy, Generator.name)]

/-- A label is the one that the definition gives, or else a standard one. -/
theorem get?_allLabels (m : Meta) (key : String) :
    m.allLabels.get? key = (m.givenLabel? key).or (m.standardLabels.get? key) :=
  Assoc.get?_foldl_insertSorted m.labels m.standardLabels key

/-- The label that pods are found by is not a standard one. -/
theorem get?_allLabels_app (m : Meta) : m.allLabels.get? Label.app = m.givenLabel? Label.app := by
  have hstandard : m.standardLabels.get? Label.app = none := by
    have hname : Label.app ≠ Label.name := by decide
    have hmanaged : Label.app ≠ Label.managedBy := by decide
    simp [standardLabels, Assoc.sorted, Assoc.get?_insertSorted, Assoc.get?_nil, hname, hmanaged]
  rw [get?_allLabels, hstandard, Option.or_none]

end Meta

/-! ### Ports -/

/-- The ports of a Service. -/
def Record.servicePorts (r : Record) : List Value := (r.spec.at "ports").items

/-- A port of the Service of an application. -/
def portValue (name : String) (port target : Nat) (protocol : Protocol) : Value :=
  .mapping [("name", .text name), ("port", .nat port), ("targetPort", .nat target),
    ("protocol", .text protocol.name)]

namespace App

variable {a : App}

theorem servicePorts_serviceRecord (a : App) : a.serviceRecord.servicePorts =
    a.servicePorts.map fun p => portValue (p.name.getD "") p.port p.targetPort p.protocol := by
  unfold serviceRecord
  cases a.serviceType <;> rfl

theorem subset_servicePorts (a : App) : a.containerPorts ++ a.metricsPorts ⊆ a.servicePorts := by
  intro p hp
  have hne : (a.containerPorts ++ a.metricsPorts).isEmpty = false := by
    rw [List.isEmpty_eq_false_iff]
    exact List.ne_nil_of_mem hp
  rw [servicePorts, hne]
  exact hp

theorem servicePorts_ne_nil (a : App) : a.servicePorts ≠ [] := by
  by_cases hnone : (a.containerPorts ++ a.metricsPorts).isEmpty = true
  · have hports : a.servicePorts = [{ port := 80, targetPort := 80, name := some "http" }] :=
      if_pos hnone
    exact hports ▸ List.cons_ne_nil _ _
  · have hports : a.servicePorts = a.containerPorts ++ a.metricsPorts := if_neg hnone
    rw [hports]
    simpa using hnone

/-- The Service lists the port to which attached Ingresses are routed. -/
theorem exists_port_eq_backendPort (a : App) : ∃ p ∈ a.servicePorts, p.port = a.backendPort := by
  obtain ⟨first, rest, hports⟩ := List.exists_cons_of_ne_nil a.servicePorts_ne_nil
  refine ⟨first, hports ▸ List.mem_cons_self, ?_⟩
  rw [backendPort, hports]
  rfl

theorem hasService_iff (a : App) : a.hasService = true ↔
    a.expose = true ∨ a.workload.ports ≠ [] ∨ a.monitoredPort?.isSome = true := by
  rw [hasService, Bool.or_eq_true, Bool.or_eq_true, or_assoc, Bool.not_eq_true',
    List.isEmpty_eq_false_iff]

/-- A port of the Service leads to the port that is monitored. -/
theorem exists_targetPort_eq {port : Nat} (h : a.monitoredPort? = some port) :
    ∃ p ∈ a.servicePorts, p.targetPort = port := by
  by_cases hcontainer : a.containerPorts.any (·.targetPort = port)
  · obtain ⟨p, hp, htarget⟩ := List.any_eq_true.mp hcontainer
    exact ⟨p, a.subset_servicePorts (List.mem_append_left _ hp), of_decide_eq_true htarget⟩
  · have hmetrics : a.metricsPorts = [{ port, targetPort := port, name := some "metrics" }] := by
      rw [metricsPorts, h]
      exact if_neg hcontainer
    have hmem : { port, targetPort := port, name := some "metrics" } ∈ a.metricsPorts := by
      rw [hmetrics]
      exact List.mem_singleton_self _
    exact ⟨_, a.subset_servicePorts (List.mem_append_right _ hmem), rfl⟩

end App

/-! ### The monitor -/

namespace Record

/-- The labels that a record asks of those that it is about. -/
def matchLabels (r : Record) : Assoc Value := ((r.spec.at "selector").at "matchLabels").entries

/-- The endpoints from which metrics are collected. -/
def endpoints (r : Record) : List Value := (r.spec.at "endpoints").items

/-- A record collects metrics from a Service: the Service is in the same namespace, has the labels
that are asked for, and leads to all endpoints. -/
structure Monitors (m s : Record) : Prop where
  place : s.namespace? = m.namespace?
  labels : ∀ e ∈ m.matchLabels, (s.metadataEntries "labels").get? e.1 = some e.2
  endpoints : ∀ e ∈ m.endpoints, ∃ port ∈ s.servicePorts, port.at "targetPort" = e.at "targetPort"

end Record

namespace App

variable {files : FileTree} {rs : List Record} {a : App} {r : Record} {m : Metrics}

/-- The monitor asks for the label that pods are found by, and collects metrics from their port. -/
theorem exists_metrics_of_monitorRecord? (h : a.monitorRecord? = some r) :
    ∃ m, a.workload.metrics = some m ∧ a.monitoredPort? = some m.port ∧
      r.Describes ⟨"ServiceMonitor", a.info.name, some a.info.ns⟩ ∧
      r.matchLabels = [(Label.app, .text a.info.name)] ∧
      r.endpoints = [.mapping [("targetPort", .nat m.port), ("path", .text m.path)]] := by
  obtain ⟨m, hm, rfl⟩ := Option.map_eq_some_iff.mp h
  refine ⟨m, (Option.filter_eq_some_iff.mp hm).1, ?_,
    Record.describes_of_meta (by decide) (by decide) _ a.info _, rfl, rfl⟩
  rw [monitoredPort?, hm, Option.map_some]

theorem describes_serviceRecord (a : App) :
    a.serviceRecord.Describes ⟨"Service", a.info.name, some a.info.ns⟩ :=
  Record.describes_of_meta (by decide) (by decide) _ a.info _

/-- The labels of the Service are those of all records. -/
theorem get?_labels_serviceRecord (a : App) (key : String) :
    (a.serviceRecord.metadataEntries "labels").get? key = (a.info.allLabels.get? key).map .text :=
  Assoc.get?_mapValues Value.text a.info.allLabels key

/-- An endpoint of the monitor is led to a port of the Service. -/
theorem exists_servicePort_of_mem_endpoints (h : a.monitorRecord? = some r) :
    ∀ e ∈ r.endpoints, ∃ port ∈ a.serviceRecord.servicePorts,
      port.at "targetPort" = e.at "targetPort" := by
  obtain ⟨m, -, hport, -, -, hendpoints⟩ := exists_metrics_of_monitorRecord? h
  obtain ⟨p, hp, htarget⟩ := exists_targetPort_eq hport
  rw [hendpoints, List.forall_mem_singleton, servicePorts_serviceRecord]
  refine ⟨_, List.mem_map_of_mem hp, ?_⟩
  show Value.nat p.targetPort = Value.nat m.port
  rw [htarget]

/-- All that the monitor needs of the Service is there but for the label that it asks for, and this
is there if and only if the definition gives it. -/
theorem monitors_serviceRecord_iff (h : a.monitorRecord? = some r) :
    r.Monitors a.serviceRecord ↔ a.info.givenLabel? Label.app = some a.info.name := by
  obtain ⟨m, -, -, hdescribes, hlabels, -⟩ := exists_metrics_of_monitorRecord? h
  have hlabel : (∀ e ∈ r.matchLabels,
      (a.serviceRecord.metadataEntries "labels").get? e.1 = some e.2) ↔
        a.info.givenLabel? Label.app = some a.info.name := by
    rw [hlabels, List.forall_mem_singleton, get?_labels_serviceRecord, Meta.get?_allLabels_app]
    simp
  rw [← hlabel]
  refine ⟨Record.Monitors.labels, fun hlabels => ⟨?_, hlabels, ?_⟩⟩
  · rw [a.describes_serviceRecord.namespace?_eq, hdescribes.namespace?_eq]
  · exact exists_servicePort_of_mem_endpoints h

/-- An application whose metrics are to be collected has one Service and one monitor, both of its
name and in its namespace, and each endpoint of the monitor is led to a port of the Service. But the
monitor finds the Service if and only if the definition gives the label that pods are found by, with
the name of the application. -/
theorem monitors_iff (h : a.records files = .ok rs) (hm : a.workload.metrics = some m)
    (hmonitor : m.serviceMonitor = true) :
    ∃ service monitor : Record, (∀ r, r ∈ rs ∧ r.kind = "Service" ↔ r = service) ∧
      (∀ r, r ∈ rs ∧ r.kind = "ServiceMonitor" ↔ r = monitor) ∧
      service.Describes ⟨"Service", a.info.name, some a.info.ns⟩ ∧
      monitor.Describes ⟨"ServiceMonitor", a.info.name, some a.info.ns⟩ ∧
      monitor.endpoints = [.mapping [("targetPort", .nat m.port), ("path", .text m.path)]] ∧
      (∀ e ∈ monitor.endpoints, ∃ port ∈ service.servicePorts,
        port.at "targetPort" = e.at "targetPort") ∧
      (monitor.Monitors service ↔ a.info.givenLabel? Label.app = some a.info.name) := by
  have hfilter : a.workload.metrics.filter (·.serviceMonitor) = some m := by
    rw [hm, Option.filter_some, if_pos hmonitor]
  obtain ⟨monitor, hrecord⟩ : ∃ monitor, a.monitorRecord? = some monitor := by
    rw [monitorRecord?, hfilter]
    exact ⟨_, rfl⟩
  have hservice : a.hasService = true := by
    rw [hasService_iff, monitoredPort?, hfilter]
    exact .inr (.inr rfl)
  obtain ⟨m', hm', -, hdescribes, -, hendpoints⟩ := exists_metrics_of_monitorRecord? hrecord
  obtain rfl : m = m' := Option.some.inj (hm.symm.trans hm')
  refine ⟨a.serviceRecord, monitor, fun r => ?_, fun r => ?_, a.describes_serviceRecord, hdescribes,
    hendpoints, exists_servicePort_of_mem_endpoints hrecord, monitors_serviceRecord_iff hrecord⟩
  · rw [service_mem_iff h, and_iff_right hservice]
  · rw [monitor_mem_iff h, hrecord, Option.some.injEq, eq_comm]

/-- An application that gives itself the label. -/
theorem monitors_labelled :
    let m : Metrics := { port := 9090, serviceMonitor := true }
    let w := (Workload.named "web").withPort 8080
    let a : App := { workload := { w with
      info := w.info.withLabel "app" "web", metrics := some m } }
    ∃ rs, a.records .empty = .ok rs ∧ a.workload.metrics = some m ∧ m.serviceMonitor = true ∧
      ∃ service ∈ rs, ∃ monitor ∈ rs, monitor.Monitors service := by
  intro m w a
  obtain ⟨rs, hrs⟩ : ∃ rs, a.records .empty = .ok rs := ⟨_, rfl⟩
  obtain ⟨service, monitor, hservice, hmonitor, -, -, -, -, hiff⟩ :=
    monitors_iff (m := m) hrs rfl rfl
  refine ⟨rs, hrs, rfl, rfl, service, ((hservice service).mpr rfl).1, monitor,
    ((hmonitor monitor).mpr rfl).1, hiff.mpr (by decide)⟩

/-- The monitor of an application without labels finds no Service. -/
theorem not_monitors_unlabelled :
    let w := (Workload.named "web").withPort 8080
    let a : App := { workload := { w with
      metrics := some { port := 9090, serviceMonitor := true } } }
    ∃ rs service monitor, a.records .empty = .ok rs ∧
      service ∈ rs ∧ service.kind = "Service" ∧ monitor ∈ rs ∧ monitor.kind = "ServiceMonitor" ∧
      monitor.matchLabels = [("app", .text "web")] ∧
      (service.metadataEntries "labels").get? "app" = none ∧ ¬ monitor.Monitors service := by
  intro w a
  obtain ⟨rs, hrs⟩ : ∃ rs, a.records .empty = .ok rs := ⟨_, rfl⟩
  obtain ⟨monitor, hrecord⟩ : ∃ monitor, a.monitorRecord? = some monitor := ⟨_, rfl⟩
  obtain ⟨hservice, hservice'⟩ := (service_mem_iff hrs).mpr ⟨rfl, rfl⟩
  obtain ⟨hmonitor, hmonitor'⟩ := (monitor_mem_iff hrs).mpr hrecord
  obtain ⟨-, -, -, -, hlabels, -⟩ := exists_metrics_of_monitorRecord? hrecord
  refine ⟨rs, a.serviceRecord, monitor, hrs, hservice, hservice', hmonitor, hmonitor', hlabels,
    by decide +kernel, ?_⟩
  rw [monitors_serviceRecord_iff hrecord]
  decide

end App

end Rollout
