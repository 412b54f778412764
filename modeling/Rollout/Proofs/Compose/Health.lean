import Rollout.Proofs.Compose.Closed
import Rollout.Proofs.Value.Path

/-!
# Waiting for healthy services

A service waits for each service that its workload depends on until that one is healthy. Compose
knows this only of services with a health check. The service of a workload has one if compose can
run one of its probes or it has a port; without either, and for companions, there is none, and
whatever waits for such a service never starts.
-/

namespace Rollout

/-- Compose can run the probe: it is a request or a command. -/
def Probe.IsRunnable (p : Probe) : Prop := ∀ port, p.action ≠ .tcp port

/-- Compose finds out whether the workload is healthy, by a probe or by a request to a port. -/
def Workload.IsChecked (w : Workload) : Prop :=
  (∃ p, (w.liveness = some p ∨ w.readiness = some p) ∧ p.IsRunnable) ∨ w.ports ≠ []

namespace Compose

variable {files : FileTree} {o : ComposeOptions} {d : Definition} {p : ComposeProject}
  {ds : List Deployed} {w : Workload} {network : String}

/-- The service waits until another one is healthy. -/
def WaitsUntilHealthy (service : Value) (n : String) : Prop :=
  (awaitedBy service).get? n = some (condition "service_healthy")

/-- The health check of a service. -/
def healthCheckOf (service : Value) : Option Value := service.field? "healthcheck"

/-! ### Health checks -/

theorem isSome_probeCheck?_iff {p : Probe} : (probeCheck? p).isSome = true ↔ p.IsRunnable := by
  unfold probeCheck? probeTest? Probe.IsRunnable
  cases p.action <;> simp

theorem isSome_healthCheck?_iff : (healthCheck? w).isSome = true ↔ w.IsChecked := by
  have hprobes : (w.liveness.toList ++ w.readiness.toList).filterMap probeCheck? = [] ↔
      ¬ ∃ p, (w.liveness = some p ∨ w.readiness = some p) ∧ p.IsRunnable := by
    simp only [List.filterMap_eq_nil_iff, List.mem_append, Option.mem_toList, not_exists, not_and,
      ← isSome_probeCheck?_iff, Option.not_isSome_iff_eq_none]
  have hports : w.primaryPort.isSome = true ↔ w.ports ≠ [] := by
    rw [Workload.primaryPort, Option.isSome_map, List.isSome_head?]
  unfold healthCheck? Workload.IsChecked
  split
  · rename_i check rest hcheck
    rw [hcheck] at hprobes
    have hprobe := not_not.mp (mt hprobes.mpr (List.cons_ne_nil check rest))
    exact iff_of_true rfl (.inl hprobe)
  · rename_i hnone
    rw [Option.isSome_map, hports, or_iff_right (hprobes.mp hnone)]

theorem healthCheckOf_service (x : Deployed) (network : String) :
    healthCheckOf (x.service network) = healthCheck? x.workload := by
  have hid : Assoc.get? (optionEntry "healthcheck" (healthCheck? x.workload) id) "healthcheck" =
      healthCheck? x.workload := by
    cases healthCheck? x.workload <;> rfl
  simp [healthCheckOf, Deployed.service, Value.field?_mapping, Assoc.get?_append, Assoc.get?_cons,
    Assoc.get?_nil, textsEntry, get?_optionEntry_of_ne, get?_listEntry_of_ne, hid]

theorem healthCheckOf_companionService (owner network : String) (c : Companion) :
    healthCheckOf (companionService owner network c) = none := by
  have hrun : Assoc.get? (companionRun owner c) "healthcheck" = none := by
    unfold companionRun
    split <;> rfl
  simp [healthCheckOf, companionService, Value.field?_mapping, Assoc.get?_append, Assoc.get?_cons,
    Assoc.get?_nil, textsEntry, get?_listEntry_of_ne, hrun]

/-! ### Waiting -/

theorem condition_inj {a b : String} : condition a = condition b ↔ a = b := by
  simp [condition]

/-- A workload waits until what it depends on is healthy, except for its own companions that run
before it. -/
theorem get?_dependencies_healthy_iff {n : String} :
    (dependencies w).get? n = some (condition "service_healthy") ↔
      n ∈ w.dependsOn ∧ ∀ c ∈ w.companions, c.isInit = true → companionName w c ≠ n := by
  by_cases hinit : ∃ c ∈ w.companions, c.isInit = true ∧ companionName w c = n
  · obtain ⟨c, hc, hruns, rfl⟩ := hinit
    rw [get?_dependencies hc hruns, Option.some_inj, condition_inj]
    refine iff_of_false (by decide) fun h => h.2 c hc hruns rfl
  · have hnot : n ∉ Assoc.keys ((w.companions.filter (·.isInit)).map fun c =>
        (companionName w c, condition "service_completed_successfully")) := by
      intro hmem
      obtain ⟨e, he, hn⟩ := List.mem_map.mp hmem
      obtain ⟨c, hc, rfl⟩ := List.mem_map.mp he
      exact hinit ⟨c, (List.mem_filter.mp hc).1, (List.mem_filter.mp hc).2, hn⟩
    have hstarted := Assoc.get?_foldl_insertNew_const
      (Assoc.ofPairs (w.dependsOn.map fun s => (s, condition "service_healthy")))
      w.connectsTo n (condition "service_started")
    rw [Assoc.get?_ofPairs_const] at hstarted
    have hawaited : (dependencies w).get? n = _ :=
      (Assoc.get?_insertAll_of_notMem hnot).trans hstarted
    have hcompanions : ∀ c ∈ w.companions, c.isInit = true → companionName w c ≠ n :=
      fun c hc hruns hn => hinit ⟨c, hc, hruns, hn⟩
    rw [hawaited, and_iff_left hcompanions]
    by_cases hdepends : n ∈ w.dependsOn
    · rw [if_pos hdepends, Option.some_or]
      exact iff_of_true rfl hdepends
    · rw [if_neg hdepends, Option.none_or]
      refine iff_of_false ?_ hdepends
      split
      · rw [Option.some_inj, condition_inj]
        decide
      · exact nofun

/-! ### The services of a project -/

/-- The service is made for a workload, under its name. -/
def IsServiceOf (files : FileTree) (network : String) (w : Workload) (n : String) (s : Value) :
    Prop :=
  ∃ x, deployed files w = .ok x ∧ n = w.name ∧ s = x.service network

/-- The service is made for a companion of a workload. -/
def IsCompanionOf (network : String) (w : Workload) (n : String) (s : Value) : Prop :=
  ∃ c ∈ w.companions, n = companionName w c ∧ s = companionService w.name network c

/-- Each service is made for a workload or for a companion of one. -/
theorem exists_owner (h : d.workloads.mapM (deployed files) = .ok ds) {version n : String}
    {s : Value} (hs : (services (document version network ds)).get? n = some s) :
    ∃ w ∈ d.workloads, IsServiceOf files network w n s ∨ IsCompanionOf network w n s := by
  rw [services_document] at hs
  obtain ⟨x, hx, hmem⟩ := List.mem_flatMap.mp (Assoc.mem_of_get?_ofPairs hs)
  obtain ⟨w, hw, hdeployed⟩ := exists_of_mem_mapM h hx
  obtain rfl := workload_of_deployed hdeployed
  refine ⟨x.workload, hw, ?_⟩
  obtain hcompanion | hown := List.mem_append.mp hmem
  · obtain ⟨c, hc, heq⟩ := List.mem_map.mp hcompanion
    obtain ⟨rfl, rfl⟩ := Prod.mk.inj heq
    exact .inr ⟨c, hc, rfl, rfl⟩
  · obtain ⟨rfl, rfl⟩ := Prod.mk.inj (List.mem_singleton.mp hown)
    exact .inl ⟨x, hdeployed, rfl, rfl⟩

theorem IsServiceOf.isSome_healthCheckOf_iff {n : String} {s : Value}
    (h : IsServiceOf files network w n s) : (healthCheckOf s).isSome = true ↔ w.IsChecked := by
  obtain ⟨x, hx, rfl, rfl⟩ := h
  rw [healthCheckOf_service, workload_of_deployed hx, isSome_healthCheck?_iff]

theorem IsServiceOf.waitsUntilHealthy_iff {n m : String} {s : Value}
    (h : IsServiceOf files network w n s) : WaitsUntilHealthy s m ↔
      m ∈ w.dependsOn ∧ ∀ c ∈ w.companions, c.isInit = true → companionName w c ≠ m := by
  obtain ⟨x, hx, rfl, rfl⟩ := h
  rw [WaitsUntilHealthy, awaitedBy_service, workload_of_deployed hx, get?_dependencies_healthy_iff]

/-- A companion that runs before its workload waits for nothing. -/
theorem awaitedBy_companionService_of_isInit (owner network : String) {c : Companion}
    (hc : c.isInit = true) : awaitedBy (companionService owner network c) = [] := by
  simp [awaitedBy, companionService, companionRun, hc, Value.at_mapping, Assoc.get?_append,
    Assoc.get?_cons, Assoc.get?_nil, textsEntry, get?_listEntry_of_ne, Value.entries,
    Value.entries?]

/-- A companion waits for nothing to be healthy. -/
theorem IsCompanionOf.not_waitsUntilHealthy {n m : String} {s : Value}
    (h : IsCompanionOf network w n s) : ¬ WaitsUntilHealthy s m := by
  obtain ⟨c, -, rfl, rfl⟩ := h
  cases hinit : c.isInit with
  | true =>
    rw [WaitsUntilHealthy, awaitedBy_companionService_of_isInit _ _ hinit, Assoc.get?_nil]
    exact nofun
  | false =>
    rw [WaitsUntilHealthy, awaitedBy_companionService _ _ hinit, Assoc.get?_cons]
    split
    · rw [Option.some_inj, condition_inj]
      decide
    · exact nofun

/-- What waits until another service is healthy is the service of a workload that depends on it. The
other service has a health check just if it is that of a workload with a probe that compose can run,
or with a port. -/
theorem healthCheck_awaited_iff (h : project o files d = .ok p) {n m : String} {s t : Value}
    (hs : (services p.document).get? n = some s) (ht : (services p.document).get? m = some t)
    (hwaits : WaitsUntilHealthy s m) :
    (∃ w ∈ d.workloads, IsServiceOf files (networkName d.name) w n s ∧ m ∈ w.dependsOn) ∧
      ((healthCheckOf t).isSome = true ↔
        ∃ v ∈ d.workloads, IsServiceOf files (networkName d.name) v m t ∧ v.IsChecked) := by
  obtain ⟨ds, hds, rfl⟩ := exists_deployed_of_project h
  constructor
  · obtain ⟨w, hw, hservice | hcompanion⟩ := exists_owner hds hs
    · exact ⟨w, hw, hservice, (hservice.waitsUntilHealthy_iff.mp hwaits).1⟩
    · exact absurd hwaits hcompanion.not_waitsUntilHealthy
  · constructor
    · intro hchecked
      obtain ⟨v, hv, hservice | ⟨c, -, rfl, rfl⟩⟩ := exists_owner hds ht
      · exact ⟨v, hv, hservice, hservice.isSome_healthCheckOf_iff.mp hchecked⟩
      · rw [healthCheckOf_companionService] at hchecked
        exact absurd hchecked nofun
    · rintro ⟨v, -, hservice, hchecked⟩
      exact hservice.isSome_healthCheckOf_iff.mpr hchecked

/-- An application that waits for its database, which has a port. -/
theorem healthCheck_awaited_shop :
    let db : App := (App.named "db").mapWorkload (·.withPort 5432)
    let web : App := (App.named "web").mapWorkload (·.addDependency "db")
    let shop := Definition.group { name := "shop" } [.app db, .app web] false
    ∃ p s t, project {} .empty shop = .ok p ∧ (services p.document).get? "web" = some s ∧
      (services p.document).get? "db" = some t ∧ WaitsUntilHealthy s "db" ∧
      (healthCheckOf t).isSome = true := by
  intro db web shop
  obtain ⟨p, s, t, x, hp, hs, ht, hwaits, hx, htx⟩ : ∃ p s t x,
      project {} .empty shop = .ok p ∧ (services p.document).get? "web" = some s ∧
      (services p.document).get? "db" = some t ∧ WaitsUntilHealthy s "db" ∧
      deployed .empty db.workload = .ok x ∧ t = x.service (networkName "shop") :=
    ⟨_, _, _, _, rfl, rfl, rfl, rfl, rfl, rfl⟩
  have hservice : IsServiceOf .empty (networkName shop.name) db.workload "db" t :=
    ⟨x, hx, rfl, htx⟩
  have hmem : db.workload ∈ shop.workloads := List.mem_cons_self
  have hchecked : db.workload.IsChecked := .inr (List.cons_ne_nil _ _)
  obtain ⟨-, hiff⟩ := healthCheck_awaited_iff hp hs ht hwaits
  exact ⟨p, s, t, hp, hs, ht, hwaits, hiff.mpr ⟨_, hmem, hservice, hchecked⟩⟩

/-- An application that waits for a worker without probes and ports. Nothing is wrong with them, and
yet there is no health check. -/
theorem not_healthCheck_awaited_worker :
    let worker : App := (App.named "worker").mapWorkload (·.withImage "worker:1.0")
    let web : App := (App.named "web").mapWorkload fun w =>
      ((w.withImage "web:1.2").withPort 8080).addDependency "worker"
    let shop := Definition.group { name := "shop" } [.app worker, .app web] false
    shop.problems .empty = [] ∧ ∃ p s t, project {} .empty shop = .ok p ∧
      (services p.document).get? "web" = some s ∧
      (services p.document).get? "worker" = some t ∧ WaitsUntilHealthy s "worker" ∧
      healthCheckOf t = none := by
  intro worker web shop
  exact ⟨by decide +kernel, _, _, _, rfl, rfl, rfl, rfl, rfl⟩

end Compose

end Rollout
