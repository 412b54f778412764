import Rollout.Proofs.Compose.Volume

/-!
# The services of a compose project

A compose project has its services by name: one for each workload, and one for each companion of a
workload, called by the two names joined by a dash. Of several services of one name the last one is
kept, so a companion can be lost behind a workload that is called as it is, or behind a companion of
another workload.
-/

namespace Rollout

variable {files : FileTree}

/-- A joined name is none of its first parts. -/
theorem dashed_ne (a s : String) : a ++ "-" ++ s ≠ a := by
  intro h
  have hlength := congrArg String.length h
  simp only [String.length_append] at hlength
  have hdash : "-".length = 1 := rfl
  omega

namespace Workload

/-- The names that a workload and its companions have as services. -/
def serviceNames (w : Workload) : List String :=
  w.companions.map (Compose.companionName w) ++ [w.name]

/-- A companion of one workload is called as the other workload, or as a companion of it. -/
def SharesService (w v : Workload) : Prop :=
  (∃ c ∈ w.companions, v.name = w.name ++ "-" ++ c.name) ∨
    (∃ e ∈ v.companions, w.name = v.name ++ "-" ++ e.name) ∨
    ∃ c ∈ w.companions, ∃ e ∈ v.companions, ∃ x,
      (v.name = w.name ++ "-" ++ x ∧ c.name = x ++ "-" ++ e.name) ∨
        (w.name = v.name ++ "-" ++ x ∧ e.name = x ++ "-" ++ c.name)

variable {w v : Workload} {ws : List Workload}

theorem mem_serviceNames_iff {n : String} :
    n ∈ w.serviceNames ↔ (∃ c ∈ w.companions, Compose.companionName w c = n) ∨ n = w.name := by
  rw [serviceNames, List.mem_append, List.mem_map, List.mem_singleton]

theorem disjoint_serviceNames_iff (h : w.name ≠ v.name) :
    List.Disjoint w.serviceNames v.serviceNames ↔ ¬ w.SharesService v := by
  have hclash : w.SharesService v ↔ ∃ n, n ∈ w.serviceNames ∧ n ∈ v.serviceNames := by
    unfold SharesService
    simp only [← dashed_eq_iff h, mem_serviceNames_iff, Compose.companionName]
    constructor
    · rintro (⟨c, hc, hname⟩ | ⟨e, he, hname⟩ | ⟨c, hc, e, he, hsame⟩)
      · exact ⟨v.name, .inl ⟨c, hc, hname.symm⟩, .inr rfl⟩
      · exact ⟨w.name, .inr rfl, .inl ⟨e, he, hname.symm⟩⟩
      · exact ⟨_, .inl ⟨c, hc, rfl⟩, .inl ⟨e, he, hsame.symm⟩⟩
    · rintro ⟨n, ⟨c, hc, hw⟩ | rfl, ⟨e, he, hv⟩ | hv⟩
      · exact .inr (.inr ⟨c, hc, e, he, hw.trans hv.symm⟩)
      · exact .inl ⟨c, hc, hv.symm.trans hw.symm⟩
      · exact .inr (.inl ⟨e, he, hv.symm⟩)
      · exact absurd hv h
  rw [hclash]
  exact ⟨fun hdisjoint ⟨n, hw, hv⟩ => hdisjoint hw hv, fun hnone n hw hv => hnone ⟨n, hw, hv⟩⟩

/-- One workload has a service of its own for itself and for each companion. -/
theorem nodup_serviceNames (h : (w.companions.map (·.name)).Nodup) : w.serviceNames.Nodup := by
  have hcompanions : (w.companions.map (Compose.companionName w)).Nodup := by
    refine List.pairwise_map.mpr ((List.pairwise_map.mp h).imp fun {c e} hne heq => ?_)
    exact hne (String.append_right_inj _ |>.mp heq)
  refine List.nodup_append.mpr ⟨hcompanions, List.nodup_singleton _, fun n hn m hm => ?_⟩
  obtain ⟨c, -, rfl⟩ := List.mem_map.mp hn
  obtain rfl := List.mem_singleton.mp hm
  exact dashed_ne w.name c.name

/-- The names of all services are distinct just if no two workloads share one. -/
theorem nodup_flatMap_serviceNames_iff (hnames : (ws.map name).Nodup)
    (hcompanions : ∀ w ∈ ws, (w.companions.map (·.name)).Nodup) :
    (ws.flatMap serviceNames).Nodup ↔ ws.Pairwise fun w v => ¬ w.SharesService v := by
  have hone : ∀ w ∈ ws, w.serviceNames.Nodup := fun w hw => nodup_serviceNames (hcompanions w hw)
  rw [List.nodup_flatMap, and_iff_right hone]
  have hdistinct := List.pairwise_map.mp hnames
  constructor
  · exact fun h => hdistinct.imp₂ (fun w v hne => (disjoint_serviceNames_iff hne).mp) h
  · exact fun h => hdistinct.imp₂ (fun w v hne => (disjoint_serviceNames_iff hne).mpr) h

theorem length_flatMap_serviceNames (ws : List Workload) :
    (ws.flatMap serviceNames).length = ws.length + (ws.flatMap (·.companions)).length := by
  induction ws with
  | nil => rfl
  | cons w ws ih =>
    rw [List.flatMap_cons, List.flatMap_cons, List.length_append, List.length_append, ih,
      serviceNames, List.length_append, List.length_map, List.length_singleton, List.length_cons]
    omega

end Workload

namespace Compose

variable {o : ComposeOptions} {d : Definition} {p : ComposeProject} {ds : List Deployed}
  {ws : List Workload} {network : String}

/-- The services of a document, by name. -/
def services (document : Value) : Assoc Value := (document.at "services").entries

theorem services_document (version network : String) (ds : List Deployed) :
    services (document version network ds) =
      Assoc.ofPairs (ds.flatMap (·.services network)) := by
  simp [services, document, Value.at_mapping, Assoc.get?_cons, Value.entries, Value.entries?]

theorem keys_services (x : Deployed) (network : String) :
    Assoc.keys (x.services network) = x.workload.serviceNames := by
  simp [Deployed.services, Assoc.keys, Workload.serviceNames, Function.comp_def]

/-- A service has the image of a workload, or is built as the workload is. -/
def HasImageOf (w : Workload) (service : Value) : Prop :=
  match w.build with
  | some b => service.at "build" = buildValue b
  | none => service.at "image" = .text w.imageOrDefault

/-- There is one service for each workload and one for each of their companions, with its own
image. -/
structure OneServiceEach (ws : List Workload) (all : Assoc Value) : Prop where
  length_eq : all.length = ws.length + (ws.flatMap (·.companions)).length
  workload : ∀ w ∈ ws, ∃ s, all.get? w.name = some s ∧ HasImageOf w s
  companion : ∀ w ∈ ws, ∀ c ∈ w.companions, ∃ s,
    all.get? (companionName w c) = some s ∧ s.at "image" = .text c.image

theorem hasImageOf_service (x : Deployed) (network : String) :
    HasImageOf x.workload (x.service network) := by
  unfold HasImageOf
  cases hbuild : x.workload.build <;>
    simp [Deployed.service, imageEntry, hbuild, Value.at_mapping, Assoc.get?_cons]

theorem keys_of_deployed (h : ws.mapM (deployed files) = .ok ds) (network : String) :
    Assoc.keys (ds.flatMap (·.services network)) = ws.flatMap Workload.serviceNames := by
  rw [Assoc.keys, List.map_flatMap, ← workloads_of_deployed h, List.flatMap_map]
  exact List.flatMap_congr fun x _ => keys_services x network

/-- If all names are distinct, no service replaces another one. -/
theorem services_of_nodup (h : ws.mapM (deployed files) = .ok ds)
    (hnodup : (ws.flatMap Workload.serviceNames).Nodup) (version network : String) :
    services (document version network ds) = ds.flatMap (·.services network) := by
  rw [services_document, Assoc.ofPairs_of_nodup]
  rwa [keys_of_deployed h]

/-- Where names are distinct, each service is found by its name. -/
theorem get?_services_of_nodup (h : ws.mapM (deployed files) = .ok ds)
    (hnodup : (ws.flatMap Workload.serviceNames).Nodup) (version : String) {x : Deployed}
    (hx : x ∈ ds) {n : String} {s : Value} (hs : (n, s) ∈ x.services network) :
    (services (document version network ds)).get? n = some s := by
  rw [services_of_nodup h hnodup]
  refine Assoc.get?_of_mem ?_ (List.mem_flatMap.mpr ⟨x, hx, hs⟩)
  rwa [keys_of_deployed h]

theorem oneServiceEach_of_nodup (h : ws.mapM (deployed files) = .ok ds)
    (hnodup : (ws.flatMap Workload.serviceNames).Nodup) (version network : String) :
    OneServiceEach ws (services (document version network ds)) where
  length_eq := by
    rw [← Workload.length_flatMap_serviceNames, ← keys_of_deployed h network, Assoc.keys,
      List.length_map, services_of_nodup h hnodup]
  workload := by
    intro w hw
    obtain ⟨x, hx, hdeployed⟩ := exists_mem_of_mapM h hw
    obtain rfl := workload_of_deployed hdeployed
    refine ⟨x.service network, get?_services_of_nodup h hnodup version hx ?_,
      hasImageOf_service x network⟩
    exact List.mem_append_right _ (List.mem_singleton_self _)
  companion := by
    intro w hw c hc
    obtain ⟨x, hx, hdeployed⟩ := exists_mem_of_mapM h hw
    obtain rfl := workload_of_deployed hdeployed
    refine ⟨companionService x.workload.name network c,
      get?_services_of_nodup h hnodup version hx ?_, rfl⟩
    exact List.mem_append_left _ (List.mem_map_of_mem hc)

/-- The services of a project are called by its workloads and their companions, no two alike. Where
the workloads have distinct names, and the companions of each one, there is a service for each of
them, with its own image, just if no two workloads share a service. -/
theorem oneServiceEach_iff (h : project o files d = .ok p)
    (hnames : (d.workloads.map (·.name)).Nodup)
    (hcompanions : ∀ w ∈ d.workloads, (w.companions.map (·.name)).Nodup) :
    (services p.document).keys.Nodup ∧
      (∀ n, n ∈ (services p.document).keys ↔ ∃ w ∈ d.workloads, n ∈ w.serviceNames) ∧
      (OneServiceEach d.workloads (services p.document) ↔
        d.workloads.Pairwise fun w v => ¬ w.SharesService v) := by
  obtain ⟨ds, hds, rfl⟩ := exists_deployed_of_project h
  rw [← Workload.nodup_flatMap_serviceNames_iff hnames hcompanions]
  have hnodup : (services (document o.version (networkName d.name) ds)).keys.Nodup := by
    rw [services_document]
    exact Assoc.nodup_keys_ofPairs _
  have hmem (n : String) : n ∈ (services (document o.version (networkName d.name) ds)).keys ↔
      n ∈ d.workloads.flatMap Workload.serviceNames := by
    rw [services_document, Assoc.mem_keys_ofPairs_iff, ← keys_of_deployed hds]
    rfl
  refine ⟨hnodup, fun n => (hmem n).trans List.mem_flatMap, ?_, ?_⟩
  · intro heach
    have hall : (services (document o.version (networkName d.name) ds)).keys.filter
        (· ∈ d.workloads.flatMap Workload.serviceNames) =
          (services (document o.version (networkName d.name) ds)).keys :=
      List.filter_eq_self.mpr fun n hn => decide_eq_true ((hmem n).mp hn)
    refine (length_filter_mem_eq_iff hnodup fun n hn => (hmem n).mpr hn).mp ?_
    rw [hall, Assoc.keys, List.length_map, heach.length_eq, Workload.length_flatMap_serviceNames]
  · exact fun hdistinct => oneServiceEach_of_nodup hds hdistinct o.version _

/-- Two applications that each have a proxy beside them. -/
theorem oneServiceEach_shop :
    let proxied (name : String) : App := (App.named name).mapWorkload
      (·.addCompanion { name := "proxy", image := "envoy:1.30" })
    let shop := Definition.group { name := "shop" }
      [.app (proxied "web"), .app (proxied "api")] false
    (shop.workloads.map (·.name)).Nodup ∧
      (∀ w ∈ shop.workloads, (w.companions.map (·.name)).Nodup) ∧
      ∃ p, project {} .empty shop = .ok p ∧ (services p.document).length = 4 ∧
        OneServiceEach shop.workloads (services p.document) := by
  intro proxied shop
  obtain ⟨p, hp⟩ : ∃ p, project {} .empty shop = .ok p := ⟨_, rfl⟩
  have hworkloads : shop.workloads = [(proxied "web").workload, (proxied "api").workload] := rfl
  have hnames : (shop.workloads.map (·.name)).Nodup := by decide +kernel
  have hcompanions : ∀ w ∈ shop.workloads, (w.companions.map (·.name)).Nodup := by
    rw [hworkloads]
    decide +kernel
  obtain ⟨-, -, heach⟩ := oneServiceEach_iff hp hnames hcompanions
  have hapart : shop.workloads.Pairwise fun w v => ¬ w.SharesService v := by
    rw [← Workload.nodup_flatMap_serviceNames_iff hnames hcompanions, hworkloads]
    decide +kernel
  have hone := heach.mpr hapart
  exact ⟨hnames, hcompanions, p, hp, hone.length_eq, hone⟩

/-- The proxy beside one application is called as another application. Nothing is wrong with them,
and yet there are two services for the three, and none has the image of the proxy. -/
theorem not_oneServiceEach_proxy :
    let web : App := (App.named "web").mapWorkload fun w =>
      (w.withImage "web:1.2").addCompanion { name := "proxy", image := "envoy:1.30" }
    let proxy : App := (App.named "web-proxy").mapWorkload (·.withImage "nginx:1.27")
    let shop := Definition.group { name := "shop" } [.app web, .app proxy] false
    (shop.workloads.map (·.name)).Nodup ∧
      (∀ w ∈ shop.workloads, (w.companions.map (·.name)).Nodup) ∧ shop.problems .empty = [] ∧
      shop.workloads.length + (shop.workloads.flatMap (·.companions)).length = 3 ∧
      ∃ p, project {} .empty shop = .ok p ∧
        (services p.document).map (fun (n, s) => (n, s.at "image")) =
          [("web-proxy", .text "nginx:1.27"), ("web", .text "web:1.2")] ∧
        ¬ OneServiceEach shop.workloads (services p.document) := by
  intro web proxy shop
  have hworkloads : shop.workloads = [web.workload, proxy.workload] := rfl
  have hcompanions : ∀ w ∈ shop.workloads, (w.companions.map (·.name)).Nodup := by
    rw [hworkloads]
    decide +kernel
  refine ⟨by decide +kernel, hcompanions, by decide +kernel, rfl, _, rfl, rfl, fun heach => ?_⟩
  exact absurd heach.length_eq (by decide +kernel)

end Compose

end Rollout
