import Rollout.Proofs.Chart.Primary

/-!
# The workload of a chart

A chart deploys the record that runs the pods of an application in two parts. Some fields of the
record are driven by the values, which say what the record says; the template copies all others.
No field is in both parts, and none is in neither.
-/

namespace Rollout

open Value

section Entries

variable {key : String}

theorem get?_optionEntry {α : Type} (a : Option α) (f : α → Value) :
    Assoc.get? (optionEntry key a f) key = a.map f := by
  cases a with
  | none => rfl
  | some a => rw [optionEntry, Assoc.get?_cons, if_pos rfl, Option.map_some]

theorem key_of_mem_optionEntry {α : Type} {a : Option α} {f : α → Value} {e : String × Value}
    (h : e ∈ optionEntry key a f) : e.1 = key := by
  cases a with
  | none => exact absurd h List.not_mem_nil
  | some a => rw [List.mem_singleton.mp h]

theorem get?_environmentEntry (env : Assoc String) :
    ((Assoc.get? (environmentEntry env) "env").getD .null).items = (environmentList env).items := by
  cases env with
  | nil => rfl
  | cons e env => rfl

end Entries

/-! ### What the record says -/

namespace Workload

variable {w : Workload}

/-- The fields of the main container that the values of a chart drive. -/
theorem field?_container (w : Workload) :
    w.container.field? "imagePullPolicy" = w.imagePullPolicy.map .text ∧
      w.container.field? "livenessProbe" = w.liveness.map Probe.toValue ∧
      w.container.field? "readinessProbe" = w.readiness.map Probe.toValue ∧
      w.container.field? "resources" = w.requirements.map Requirements.toValue ∧
      (w.container.at "env").items = (environmentList w.env).items := by
  refine ⟨?_, ?_, ?_, ?_, ?_⟩
  all_goals
    simp [container, field?_mapping, at_mapping, Assoc.get?_append, Assoc.get?_cons, textsEntry,
      get?_optionEntry_of_ne, get?_listEntry_of_ne, get?_environmentEntry_of_ne, get?_optionEntry,
      get?_environmentEntry]

/-- The fields of a pod that the values of a chart drive. -/
theorem field?_podSpec (w : Workload) (mode : StorageMode) (notes : Assoc String) :
    ((w.podTemplate mode notes).at "spec").field? "serviceAccountName" =
        w.serviceAccount.map .text ∧
      (((w.podTemplate mode notes).at "spec").field? "nodeSelector").getD .empty =
        .textMap w.nodeSelector := by
  have hselector : ∀ key, key ≠ "nodeSelector" → Assoc.get? (if w.nodeSelector.isEmpty then []
      else [("nodeSelector", Value.textMap w.nodeSelector)]) key = none := by
    intro key hkey
    split
    · rfl
    · rw [Assoc.get?_cons, if_neg hkey, Assoc.get?_nil]
  have hown : (Assoc.get? (if w.nodeSelector.isEmpty then []
      else [("nodeSelector", Value.textMap w.nodeSelector)]) "nodeSelector").getD .empty =
        .textMap w.nodeSelector := by
    cases w.nodeSelector <;> rfl
  constructor
  · simp [podTemplate, field?_mapping, at_mapping, Assoc.get?_append, Assoc.get?_cons,
      get?_listEntry_of_ne, get?_optionEntry, -List.isEmpty_iff, hselector]
  · simp [podTemplate, field?_mapping, at_mapping, Assoc.get?_append, Assoc.get?_cons,
      get?_listEntry_of_ne, get?_optionEntry_of_ne, -List.isEmpty_iff, hown]

end Workload

namespace Chart

variable {files : FileTree} {rs : List Record} {d : Definition} {w : Workload} {p : Primary}
  {fs : List OutputFile} {x : Record} {v : Value}

/-- The annotations of the pods of a record. -/
def podAnnotations (x : Record) : Option Value :=
  ((x.spec.at "template").at "metadata").field? "annotations"

/-- The values of a chart say what the record says of its workload. -/
structure Drives (chart : String) (v : Value) (x : Record) : Prop where
  name : x.mainContainer.at "name" = .text chart
  replicas : v.field? "replicaCount" = x.spec.field? "replicas"
  pullPolicy : (v.at "image").at "pullPolicy" =
    (x.mainContainer.field? "imagePullPolicy").getD (.text "IfNotPresent")
  /-- The variables are the same, in the same order. -/
  env : (x.mainContainer.at "env").items =
    (v.at "env").entries.map fun (name, value) => .mapping [("name", .text name), ("value", value)]
  liveness : v.field? "livenessProbe" = x.mainContainer.field? "livenessProbe"
  readiness : v.field? "readinessProbe" = x.mainContainer.field? "readinessProbe"
  resources : v.field? "resources" = some ((x.mainContainer.field? "resources").getD .empty)
  nodeSelector : v.field? "nodeSelector" = some ((x.podSpec.field? "nodeSelector").getD .empty)
  account : (v.at "serviceAccount").at "name" =
    (x.podSpec.field? "serviceAccountName").getD (.text "")
  annotations : v.field? "podAnnotations" = some ((podAnnotations x).getD .empty)

theorem field?_values_probes (p : Primary) :
    p.values.field? "livenessProbe" = p.workload.liveness.map Probe.toValue ∧
      p.values.field? "readinessProbe" = p.workload.readiness.map Probe.toValue := by
  constructor
  all_goals
    simp [Primary.values, field?_mapping, Assoc.get?_append, Assoc.get?_cons, get?_optionEntry,
      get?_optionEntry_of_ne]

/-- A chart has the name of the application. -/
theorem name_of_runs (hd : d.Runs w) : (ofDefinition d).name = w.name := by
  obtain ⟨a, rfl, rfl⟩ | ⟨a, rfl, rfl⟩ := hd
  all_goals
    unfold ofDefinition
    split <;> rfl

theorem drives_of_builtAround (hd : d.Runs w) (h : BuiltAround d rs w p fs)
    (hreplicas : (p.record.record.spec.field? "replicas").isSome) :
    Drives (ofDefinition d).name p.values p.record.record := by
  obtain ⟨mode, notes, hrun⟩ := h.isRunBy
  have hmain := Workload.IsRunBy.mainContainer ⟨notes, hrun⟩
  obtain ⟨hpull, hlive, hready, hresources, henv⟩ := w.field?_container
  obtain ⟨haccount, hselector⟩ := w.field?_podSpec mode notes
  have hpod : p.record.record.podSpec = (w.podTemplate mode notes).at "spec" := by
    rw [Record.podSpec, hrun]
  obtain ⟨hlive', hready'⟩ := field?_values_probes p
  obtain rfl := h.workload
  constructor
  case name =>
    rw [hmain, name_of_runs hd]
    rfl
  case replicas =>
    obtain ⟨n, hn⟩ := Option.isSome_iff_exists.mp hreplicas
    have hget : p.record.record.get? "spec.replicas" = some n := by
      rw [get?_spec (by decide : pathKeys "spec.replicas" = ["spec", "replicas"]), at?_singleton,
        hn]
    show some ((p.record.record.get? "spec.replicas").getD (.nat 1)) = _
    rw [hget, hn, Option.getD_some]
  case pullPolicy =>
    rw [hmain, hpull]
    show Value.text (p.workload.imagePullPolicy.getD "IfNotPresent") = _
    cases p.workload.imagePullPolicy <;> rfl
  case env =>
    rw [hmain, henv]
    show p.workload.env.map _ = (p.workload.env.mapValues Value.text).map _
    rw [Assoc.mapValues, List.map_map]
    rfl
  case liveness => rw [hmain, hlive, hlive']
  case readiness => rw [hmain, hready, hready']
  case resources =>
    rw [hmain, hresources]
    rfl
  case nodeSelector =>
    rw [hpod, hselector]
    rfl
  case account =>
    rw [hpod, haccount]
    show Value.text (p.workload.serviceAccount.getD "") = _
    cases p.workload.serviceAccount <;> rfl
  case annotations =>
    have hget : p.record.record.get? "spec.template.metadata.annotations" =
        podAnnotations p.record.record := by
      rw [get?_spec (by decide : pathKeys "spec.template.metadata.annotations" =
        ["spec", "template", "metadata", "annotations"]), at?_cons_cons, at?_cons_cons,
        at?_singleton]
      rfl
    show some ((p.record.record.get? "spec.template.metadata.annotations").getD .empty) = _
    rw [hget]

/-! ### Scaling -/

/-- A metric by which the template of an autoscaler aims at a use of a resource. -/
def metric (resource : String) (percent : Value) : Value :=
  .mapping [("type", .text "Resource"), ("resource", .mapping [("name", .text resource),
    ("target", .mapping [("type", .text "Utilization"), ("averageUtilization", percent)])])]

/-- The metrics that the template of an autoscaler has with some values. -/
def metrics (autoscaling : Value) : List Value :=
  ((autoscaling.field? "targetCPUUtilizationPercentage").map (metric "cpu")).toList ++
    ((autoscaling.field? "targetMemoryUtilizationPercentage").map (metric "memory")).toList

/-- The values of a chart scale as the records do. -/
structure Scales (v : Value) (rs : List Record) : Prop where
  enabled : ∃ b, (v.at "autoscaling").at "enabled" = .bool b ∧
    (b = true ↔ ∃ r ∈ rs, r.kind = "HorizontalPodAutoscaler")
  bounds : ∀ r ∈ rs, r.kind = "HorizontalPodAutoscaler" →
    (v.at "autoscaling").field? "minReplicas" = r.spec.field? "minReplicas" ∧
      (v.at "autoscaling").field? "maxReplicas" = r.spec.field? "maxReplicas"
  targets : ∀ r ∈ rs, r.kind = "HorizontalPodAutoscaler" →
    (r.spec.at "metrics").items = metrics (v.at "autoscaling")

/-- Without an autoscaler among the records, the values turn scaling off. -/
theorem scales_of_none (h : BuiltAround d rs w p fs)
    (hnone : ∀ r ∈ rs, r.kind ≠ "HorizontalPodAutoscaler") : Scales p.values rs := by
  have hautoscaler : p.autoscaler = none := by
    rw [h.autoscaler, findNamed_eq_none]
    intro r hr hkind
    exact hnone r hr (Record.kind_of_kind? hkind)
  constructor
  case enabled =>
    refine ⟨false, ?_, ?_⟩
    · show p.autoscalingValues.at "enabled" = _
      rw [Primary.autoscalingValues, hautoscaler]
      rfl
    · constructor
      · exact nofun
      · rintro ⟨r, hr, hkind⟩
        exact absurd hkind (hnone r hr)
  case bounds => exact fun r hr hkind => absurd hkind (hnone r hr)
  case targets => exact fun r hr hkind => absurd hkind (hnone r hr)

/-- The autoscaler of an application is read field by field. -/
theorem autoscalingValues_of_record {a : App} {b : HorizontalScaling} {q : Placed}
    (hq : p.autoscaler = some q) (hb : a.scaling.horizontal = some b)
    (hrecord : a.scaling.record? a.info = some q.record) :
    p.autoscalingValues = .mapping ([("enabled", .bool true), ("minReplicas", .nat b.minReplicas),
      ("maxReplicas", .nat b.maxReplicas)] ++
        optionEntry "targetCPUUtilizationPercentage" b.cpuUtilization .nat ++
        optionEntry "targetMemoryUtilizationPercentage" b.memoryUtilization .nat) := by
  obtain ⟨low, high, cpu, memory⟩ := b
  rw [Scaling.record?, hb] at hrecord
  have hrecord := Option.some.inj hrecord
  rw [Primary.autoscalingValues, hq]
  simp only [← hrecord]
  cases cpu <;> cases memory <;> rfl

/-- The values mirror the autoscaler of an application. -/
theorem scales_of_app {a : App} (hrs : a.records files = .ok rs)
    (h : BuiltAround (.app a) rs a.workload p fs) : Scales p.values rs := by
  cases hhorizontal : a.scaling.horizontal with
  | none =>
    refine scales_of_none h fun r hr hkind => ?_
    have hrecord := (App.autoscaler_mem_iff hrs).mp ⟨hr, hkind⟩
    rw [Scaling.record?, hhorizontal] at hrecord
    exact nomatch hrecord
  | some b =>
    obtain ⟨x, hx⟩ : ∃ x, a.scaling.record? a.info = some x := by
      rw [Scaling.record?, hhorizontal]
      exact ⟨_, rfl⟩
    obtain ⟨hmem, hkind⟩ := (App.autoscaler_mem_iff hrs).mpr hx
    have honly : ∀ r ∈ rs, r.kind = "HorizontalPodAutoscaler" → r = x := by
      intro r hr hr'
      exact Option.some.inj (((App.autoscaler_mem_iff hrs).mp ⟨hr, hr'⟩).symm.trans hx)
    have hname : x.name? = some a.info.name := by
      rw [Scaling.record?, hhorizontal] at hx
      obtain rfl := Option.some.inj hx
      rfl
    obtain ⟨q, hq, rfl⟩ := exists_findNamed_only hmem (Record.kind?_of_kind hkind (by decide)) hname
      honly
    have hvalues : p.values.at "autoscaling" = _ :=
      autoscalingValues_of_record (h.autoscaler.trans hq) hhorizontal hx
    obtain ⟨low, high, cpu, memory⟩ := b
    rw [Scaling.record?, hhorizontal] at hx
    have hrecord := Option.some.inj hx
    constructor
    case enabled =>
      refine ⟨true, ?_, iff_of_true rfl ⟨_, hmem, hkind⟩⟩
      rw [hvalues]
      rfl
    case bounds =>
      intro r hr hr'
      rw [honly r hr hr', hvalues, ← hrecord]
      exact ⟨rfl, rfl⟩
    case targets =>
      intro r hr hr'
      rw [honly r hr hr', hvalues, ← hrecord]
      cases cpu <;> cases memory <;> rfl

/-! ### What is copied -/

/-- The fields of a specification that the template has in all charts. -/
def specFields : List String := ["serviceName", "replicas", "selector", "template"]

/-- The template copies what the values do not drive: the other fields of the main container and of
the pod, all other containers, and what a StatefulSet has beside its pods. -/
structure CopiesRest (sections : List Section) (x : Record) : Prop where
  container : Section.entriesAt 10 sections = without containerFields x.mainContainer.entries
  containers : Section.itemsAt 8 sections = (x.podSpec.at "containers").items.tail
  pod : Section.entriesAt 6 sections = without podFields x.podSpec.entries
  spec : Section.entriesAt 2 sections = without specFields x.spec.entries
  stateful : ∀ e ∈ Section.entriesAt 2 sections, x.kind = "StatefulSet" ∧
    (e.1 = "podManagementPolicy" ∨ e.1 = "volumeClaimTemplates")
  /-- Nothing else is copied. -/
  only : ∀ i v, .copied i v ∈ sections → i = 8 ∧ v.isMapping = false ∨ i ∈ [2, 6, 10] ∧ v.isMapping

theorem podOf_eq (x : Record) : podOf x = x.podSpec.entries := by
  have hkeys : pathKeys "spec.template.spec" = ["spec", "template", "spec"] := by decide
  rw [podOf, getD_map_entries, get?_spec hkeys, at?_cons_cons, at?_singleton]
  rfl

theorem containersOf_eq (v : Value) : containersOf v.entries = (v.at "containers").items := by
  rw [containersOf, getD_map_items, ← field?_eq_get?_entries]
  rfl

theorem getD_head?_entries (items : List Value) :
    (items.head?.map entries).getD [] = (items.headD .null).entries := by
  cases items <;> rfl

theorem entriesAt_statefulSections (i : Nat) (chart : String) (x : Record) :
    Section.entriesAt i (statefulSections chart x) =
      if x.kind = "StatefulSet" ∧ 2 = i then
        optionEntry "podManagementPolicy" (x.get? "spec.podManagementPolicy") id
      else [] := by
  rw [statefulSections, Record.kind]
  by_cases hkind : x.kind?.getD "" = "StatefulSet"
  · rw [if_pos hkind, Section.entriesAt_shared, Section.entriesAt_ofOption]
    simp [hkind]
  · rw [if_neg hkind]
    simp [hkind]

theorem itemsAt_statefulSections (i : Nat) (chart : String) (x : Record) :
    Section.itemsAt i (statefulSections chart x) = [] := by
  rw [statefulSections]
  split <;> simp

/-- What the template copies into the specification. -/
def copiedSpec (x : Record) : Assoc Value :=
  (if x.kind = "StatefulSet" then
    optionEntry "podManagementPolicy" (x.get? "spec.podManagementPolicy") id else []) ++
    optionEntry "volumeClaimTemplates" (x.get? "spec.volumeClaimTemplates") id

theorem copiesRest_of_copiedSpec (chart : String)
    (hspec : copiedSpec x = without specFields x.spec.entries)
    (hkind : copiedSpec x ≠ [] → x.kind = "StatefulSet") :
    CopiesRest (workloadSections chart x) x := by
  have hcopied : Section.entriesAt 2 (workloadSections chart x) = copiedSpec x := by
    simp [workloadSections, entriesAt_statefulSections, copiedSpec]
  constructor
  case container =>
    simp [workloadSections, entriesAt_statefulSections, podOf_eq, containersOf_eq,
      getD_head?_entries, Record.mainContainer]
  case containers =>
    simp [workloadSections, itemsAt_statefulSections, podOf_eq, containersOf_eq]
  case pod => simp [workloadSections, entriesAt_statefulSections, podOf_eq]
  case spec => rw [hcopied, hspec]
  case stateful =>
    rw [hcopied]
    intro e he
    refine ⟨hkind (List.ne_nil_of_mem he), ?_⟩
    obtain he | he := List.mem_append.mp he
    · split at he
      · exact .inl (key_of_mem_optionEntry he)
      · exact absurd he List.not_mem_nil
    · exact .inr (key_of_mem_optionEntry he)
  case only =>
    intro i v hmem
    simp only [workloadSections, List.mem_append, List.mem_singleton, reduceCtorEq, false_or,
      or_false, or_assoc] at hmem
    obtain hset | hmain | hmore | hpod | hclaims := hmem
    · unfold statefulSections at hset
      split at hset
      · obtain hset | hset := List.mem_cons.mp hset
        · cases hset
        · obtain ⟨rfl, hv⟩ := Section.of_mem_ofOption hset
          exact .inr ⟨by decide, hv⟩
      · exact absurd hset List.not_mem_nil
    · obtain ⟨rfl, hv⟩ := Section.of_mem_ofEntries hmain
      exact .inr ⟨by decide, hv⟩
    · obtain ⟨rfl, hv⟩ := Section.of_mem_ofItems hmore
      exact .inl ⟨rfl, hv⟩
    · obtain ⟨rfl, hv⟩ := Section.of_mem_ofEntries hpod
      exact .inr ⟨by decide, hv⟩
    · obtain ⟨rfl, hv⟩ := Section.of_mem_ofOption hclaims
      exact .inr ⟨by decide, hv⟩

/-- A Deployment has nothing in its specification but what every chart has. -/
theorem copiesRest_deploymentRecord (chart : String) (a : App) (notes : Assoc String) :
    CopiesRest (workloadSections chart (a.deploymentRecord notes)) (a.deploymentRecord notes) := by
  have hnone : copiedSpec (a.deploymentRecord notes) = [] := rfl
  refine copiesRest_of_copiedSpec chart ?_ fun hne => absurd hnone hne
  rw [hnone]
  rfl

/-- Of a StatefulSet the policy and the templates of the claims are copied. -/
theorem copiesRest_statefulSetRecord (chart : String) (a : StatefulApp) (notes : Assoc String) :
    CopiesRest (workloadSections chart (a.statefulSetRecord notes))
      (a.statefulSetRecord notes) := by
  refine copiesRest_of_copiedSpec chart ?_ fun _ => rfl
  unfold StatefulApp.statefulSetRecord
  cases a.workload.storage <;> rfl

/-- The values of the chart of an application and the template of its workload have all that the
record has which runs the pods. The values say what it says of the replicas, the variables, the
probes, the resources, the nodes and the annotations of the pods, and mirror the autoscaler; the
template copies exactly the rest of the main container, of the pod and of the specification. -/
theorem workload_kept (hd : d.Runs w) (h : d.records files = .ok rs) :
    ∃ (x : Record) (v : Value) (fs : List OutputFile),
      x ∈ rs ∧ (∀ r ∈ rs, r.RunsApplication ↔ r = x) ∧
      (ofDefinition d).values d rs = .ok v ∧ (ofDefinition d).files d rs = .ok fs ∧
      .ofText ("templates/" ++ x.kind.toLower ++ ".yaml")
        (Section.textAll (workloadSections (ofDefinition d).name x)) ∈ fs ∧
      Drives (ofDefinition d).name v x ∧ Scales v rs ∧
      CopiesRest (workloadSections (ofDefinition d).name x) x := by
  obtain ⟨p, fs, hchart⟩ := exists_builtAround hd h
  have hkind : p.record.record.kind = p.kind := by
    obtain hruns | hruns := hchart.runs
    · rw [Primary.kind, Record.kind?_of_kind hruns (by decide)]
      exact hruns
    · rw [Primary.kind, Record.kind?_of_kind hruns (by decide)]
      exact hruns
  have hfile : .ofText ("templates/" ++ p.record.record.kind.toLower ++ ".yaml")
      (Section.textAll (workloadSections (ofDefinition d).name p.record.record)) ∈ fs := by
    apply hchart.templates
    rw [hkind]
    exact List.mem_cons_self
  have hruns : ∀ r ∈ rs, r.RunsApplication ↔ r = p.record.record := by
    intro r hr
    exact ⟨hchart.only r hr, fun hsame => hsame ▸ hchart.runs⟩
  obtain ⟨a, rfl, rfl⟩ | ⟨a, rfl, rfl⟩ := hd
  · obtain ⟨notes, -, -, hmem, -⟩ := App.parts_of_records h
    have hrecord := hchart.only _ hmem (.inl rfl)
    have hdrives := drives_of_builtAround (.inl ⟨a, rfl, rfl⟩) hchart (by rw [← hrecord]; rfl)
    refine ⟨_, _, fs, hchart.mem, hruns, hchart.values, hchart.files, hfile, hdrives,
      scales_of_app h hchart, ?_⟩
    rw [← hrecord]
    exact copiesRest_deploymentRecord _ a notes
  · obtain ⟨notes, -, -, hmem, -⟩ := StatefulApp.parts_of_records h
    have hrecord := hchart.only _ hmem (.inr rfl)
    have hdrives := drives_of_builtAround (.inr ⟨a, rfl, rfl⟩) hchart (by rw [← hrecord]; rfl)
    refine ⟨_, _, fs, hchart.mem, hruns, hchart.values, hchart.files, hfile, hdrives,
      scales_of_none hchart fun r => StatefulApp.kind_ne_autoscaler h, ?_⟩
    rw [← hrecord]
    exact copiesRest_statefulSetRecord _ a notes

/-- A stateful application with a probe, a variable, storage and a further container. -/
theorem workload_kept_db :
    let w := ((Workload.named "db").withReadiness (.tcp 5432)).withVariable "PGDATA" "/data"
      |>.addStorage { name := "data", mountPath := "/data", size := "1Gi" }
      |>.addCompanion (.sidecar "metrics" "exporter:1.0")
    let d := Definition.statefulApp { workload := w, replicas := 3 }
    ∃ (rs : List Record) (x : Record) (v : Value),
      d.Runs w ∧ d.records .empty = .ok rs ∧ x ∈ rs ∧ x.RunsApplication ∧
      (ofDefinition d).values d rs = .ok v ∧ Drives "db" v x ∧ Scales v rs ∧
      CopiesRest (workloadSections "db" x) x := by
  intro w d
  have hd : d.Runs w := .inr ⟨_, rfl, rfl⟩
  obtain ⟨rs, hrs⟩ : ∃ rs, d.records .empty = .ok rs := ⟨_, rfl⟩
  obtain ⟨x, v, fs, hx, hruns, hv, -, -, hdrives, hscales, hrest⟩ := workload_kept hd hrs
  rw [name_of_runs hd] at hdrives hrest
  exact ⟨rs, x, v, hd, hrs, hx, (hruns x hx).mpr rfl, hv, hdrives, hscales, hrest⟩

end Chart

end Rollout
