import Rollout.Proofs.Compose.Service
import Rollout.Proofs.Config.Digest

/-!
# Compose projects are closed

The services, volumes, networks and files of a project and the documents that override it are all
made from the same workloads, but each by itself. Whatever a service names stands in the others: its
network, the volumes of its storage and claims, a file for each key of the configuration that is
mounted into it, the companions that it waits for and the workload that a companion goes with.
-/

namespace Rollout.Compose

variable {files : FileTree} {o : ComposeOptions} {d : Definition} {p : ComposeProject}
  {ws : List Workload} {ds : List Deployed} {w : Workload} {x : Deployed} {network : String}

/-- The networks that a document declares. -/
def networkNames (document : Value) : List String := Assoc.keys (document.at "networks").entries

/-- What a service mounts. -/
def mountsOf (service : Value) : List Value := (service.at "volumes").items

/-- The services that a service waits for, with what it waits for. -/
def awaitedBy (service : Value) : Assoc Value := (service.at "depends_on").entries

/-- The directory for configuration of some name. -/
def directoryOf (parent name : String) : String := parent ++ "/" ++ Name.fileName name

/-- How a directory beside the compose file is mounted. -/
def bindText (directory path : String) : String := "./" ++ directory ++ ":" ++ path ++ ":ro"

/-- A mount for storage, a volume, a ConfigMap or a Secret of a workload. -/
def IsMountOf (w : Workload) (m : String) : Prop :=
  (∃ s ∈ w.storage, m = w.claimName s ++ ":" ++ s.mountPath) ∨
    (∃ v ∈ w.volumes, m = volumeMount v) ∨
    (∃ c ∈ w.configMaps, ∃ path, c.mountPath = some path ∧
      m = bindText (directoryOf "config" c.info.name) path) ∨
    ∃ s ∈ w.secrets, ∃ path, s.mountPath = some path ∧
      m = bindText (directoryOf "secrets" s.info.name) path

/-- Each key of the data is a file of the project with its content. -/
def HoldsData (p : ComposeProject) (directory : String) (data : ResolvedData) : Prop :=
  ∀ e ∈ data.entries, ⟨directory ++ "/" ++ Name.fileName e.1, e.2⟩ ∈ p.files

/-- A service mounts just what its workload has, and all of it is in the project: the volumes for
its storage and its claims, and the files of the configuration that is mounted. -/
structure MountsResolved (files : FileTree) (w : Workload) (p : ComposeProject)
    (service : Value) : Prop where
  mounts : ∀ m, m ∈ mountsOf service ↔ ∃ text, IsMountOf w text ∧ m = .text text
  storage : ∀ s ∈ w.storage, w.claimName s ∈ volumeNames p.document
  claims : ∀ v ∈ w.volumes, ∀ name, v.source = .claim name → name ∈ volumeNames p.document
  configMaps : ∀ c ∈ w.configMaps, c.mountPath.isSome → ∃ data, c.resolve files = .ok data ∧
    HoldsData p (directoryOf "config" c.info.name) data
  secrets : ∀ s ∈ w.secrets, s.mountPath.isSome → ∃ data, s.resolve files = .ok data ∧
    HoldsData p (directoryOf "secrets" s.info.name) data

/-- The companions of a workload are services. It waits until those that run before it have
completed, and the others wait for it. -/
structure CompanionsResolved (w : Workload) (all : Assoc Value) (service : Value) : Prop where
  inits : ∀ c ∈ w.companions, c.isInit = true → companionName w c ∈ all.keys ∧
    (awaitedBy service).get? (companionName w c) =
      some (condition "service_completed_successfully")
  others : ∀ c ∈ w.companions, c.isInit = false → ∃ s, all.get? (companionName w c) = some s ∧
    (awaitedBy s).keys = [w.name] ∧ w.name ∈ all.keys

/-- Whatever the services of a project name is in the project. -/
structure IsClosed (files : FileTree) (ws : List Workload) (p : ComposeProject) : Prop where
  networks : ∀ e ∈ services p.document, ∀ v ∈ (e.2.at "networks").items,
    ∃ n ∈ networkNames p.document, v = .text n
  workloads : ∀ w ∈ ws, ∃ s, (services p.document).get? w.name = some s ∧
    MountsResolved files w p s ∧ CompanionsResolved w (services p.document) s
  overrides : ∀ version kind,
    (services (overrideDocument version p kind)).keys ⊆ (services p.document).keys

/-! ### The parts of services -/

@[simp]
theorem get?_mapEntry_of_ne {key other : String} (entries : Assoc Value) (h : other ≠ key) :
    Assoc.get? (mapEntry key entries) other = none := by
  cases entries with
  | nil => rfl
  | cons e entries =>
    change Assoc.get? [(key, Value.mapping (e :: entries))] other = none
    rw [Assoc.get?_cons, if_neg h, Assoc.get?_nil]

/-- The image stands before all else that a service has. -/
@[simp]
theorem get?_imageEntry_of_ne {key : String} (w : Workload) (hbuild : key ≠ "build")
    (himage : key ≠ "image") (rest : Assoc Value) :
    Assoc.get? (imageEntry w :: rest) key = Assoc.get? rest key := by
  unfold imageEntry
  split
  · rw [Assoc.get?_cons, if_neg hbuild]
  · rw [Assoc.get?_cons, if_neg himage]

theorem mountsOf_service (x : Deployed) (network : String) :
    mountsOf (x.service network) = x.mounts.map .text := by
  rw [← items_listEntry "volumes" (x.mounts.map .text)]
  simp [mountsOf, Deployed.service, Value.at_mapping, Assoc.get?_append, Assoc.get?_cons,
    Assoc.get?_nil, textsEntry, get?_optionEntry_of_ne, get?_listEntry_of_ne]

theorem awaitedBy_service (x : Deployed) (network : String) :
    awaitedBy (x.service network) = dependencies x.workload := by
  rw [← at_mapEntry "depends_on" (dependencies x.workload)]
  simp [awaitedBy, Deployed.service, Value.at_mapping, Assoc.get?_append, Assoc.get?_cons,
    Assoc.get?_nil, textsEntry, get?_optionEntry_of_ne, get?_listEntry_of_ne]

theorem networks_service (x : Deployed) (network : String) :
    ((x.service network).at "networks").items = [.text network] := by
  simp [Deployed.service, Value.at_mapping, Assoc.get?_append, Assoc.get?_cons, textsEntry,
    get?_optionEntry_of_ne, get?_listEntry_of_ne, Value.texts, Value.items, Value.items?]

/-- A companion stands beside the network that its workload is in. -/
theorem networks_companionService (owner network : String) (c : Companion) :
    ((companionService owner network c).at "networks").items = [.text network] := by
  have hrun : Assoc.get? (companionRun owner c) "networks" = none := by
    unfold companionRun
    split <;> rfl
  simp [companionService, Value.at_mapping, Assoc.get?_append, Assoc.get?_cons, textsEntry,
    get?_listEntry_of_ne, hrun, Value.texts, Value.items, Value.items?]

theorem awaitedBy_companionService (owner network : String) {c : Companion}
    (hc : c.isInit = false) :
    awaitedBy (companionService owner network c) = [(owner, condition "service_started")] := by
  simp [awaitedBy, companionService, companionRun, hc, Value.at_mapping, Assoc.get?_append,
    Assoc.get?_cons, textsEntry, get?_listEntry_of_ne, Value.entries, Value.entries?]

/-- Of all that a workload waits for, the companions that run before it have the last word. -/
theorem get?_dependencies {c : Companion} (hc : c ∈ w.companions) (hinit : c.isInit = true) :
    (dependencies w).get? (companionName w c) =
      some (condition "service_completed_successfully") := by
  have hmem : companionName w c ∈ (w.companions.filter (·.isInit)).map (companionName w) :=
    List.mem_map_of_mem (List.mem_filter.mpr ⟨hc, hinit⟩)
  have hcompleted : ((w.companions.filter (·.isInit)).map fun c =>
      (companionName w c, condition "service_completed_successfully")) =
      ((w.companions.filter (·.isInit)).map (companionName w)).map fun n =>
        (n, condition "service_completed_successfully") := by
    rw [List.map_map]
    rfl
  dsimp only [dependencies]
  rw [hcompleted]
  exact Assoc.get?_insertAll_const hmem _

/-! ### The data attached to a workload -/

section Attached

variable {α : Type} {name : α → String} {path : α → Option String}
  {resolve : α → Except SourceError ResolvedData} {items : List α} {attached : List Attachment}
  (h : (items.mapM fun i => (resolve i).map fun data => ⟨name i, path i, data⟩) = .ok attached)
include h

/-- The mounts of what is attached are those of what has a path. -/
theorem mem_attached_mounts_iff (parent : String) {m : String} :
    m ∈ attached.filterMap (·.mount? parent) ↔
      ∃ i ∈ items, ∃ target, path i = some target ∧
        m = bindText (directoryOf parent (name i)) target := by
  have hmount (i : α) (data : ResolvedData) :
      Attachment.mount? ⟨name i, path i, data⟩ parent = some m ↔
        ∃ target, path i = some target ∧ m = bindText (directoryOf parent (name i)) target := by
    simp only [Attachment.mount?, Option.map_eq_some_iff, @eq_comm _ m]
    rfl
  rw [List.mem_filterMap]
  constructor
  · rintro ⟨a, ha, hm⟩
    obtain ⟨i, hi, hresolved⟩ := exists_of_mem_mapM h ha
    obtain ⟨data, -, rfl⟩ := map_eq_ok_iff.mp hresolved
    exact ⟨i, hi, (hmount i data).mp hm⟩
  · rintro ⟨i, hi, hm⟩
    obtain ⟨a, ha, hresolved⟩ := exists_mem_of_mapM h hi
    obtain ⟨data, -, rfl⟩ := map_eq_ok_iff.mp hresolved
    exact ⟨_, ha, (hmount i data).mpr hm⟩

/-- Everything that is mounted is resolved, and its data are files. -/
theorem exists_attached_files (parent : String) {i : α} (hi : i ∈ items)
    (hpath : (path i).isSome = true) : ∃ data, resolve i = .ok data ∧ ∀ e ∈ data.entries,
      ⟨directoryOf parent (name i) ++ "/" ++ Name.fileName e.1, e.2⟩ ∈
        attached.flatMap (·.files parent) := by
  obtain ⟨a, ha, hresolved⟩ := exists_mem_of_mapM h hi
  obtain ⟨data, hdata, rfl⟩ := map_eq_ok_iff.mp hresolved
  refine ⟨data, hdata, fun e he => List.mem_flatMap.mpr ⟨_, ha, ?_⟩⟩
  have hmounted : ¬ (path i).isNone = true := by
    rw [Option.isNone_iff_eq_none]
    exact Option.isSome_iff_ne_none.mp hpath
  rw [Attachment.files, if_neg hmounted]
  obtain htext | hbinary := List.mem_append.mp he
  · obtain ⟨entry, hmem, rfl⟩ := List.mem_map.mp htext
    exact List.mem_append_left _ (List.mem_map.mpr ⟨entry, hmem, rfl⟩)
  · exact List.mem_append_right _ (List.mem_map.mpr ⟨e, hbinary, rfl⟩)

end Attached

theorem attached_of_deployed (h : deployed files w = .ok x) :
    (w.secrets.mapM fun s => (s.resolve files).map fun data =>
      (⟨s.info.name, s.mountPath, data⟩ : Attachment)) = .ok x.secrets ∧
    (w.configMaps.mapM fun c => (c.resolve files).map fun data =>
      (⟨c.info.name, c.mountPath, data⟩ : Attachment)) = .ok x.configMaps := by
  obtain ⟨secrets, hsecrets, h⟩ := bind_eq_ok_iff.mp h
  obtain ⟨configMaps, hconfigMaps, h⟩ := bind_eq_ok_iff.mp h
  obtain rfl := Except.ok.inj h
  exact ⟨hsecrets, hconfigMaps⟩

theorem mem_mounts_iff (h : deployed files w = .ok x) {m : String} :
    m ∈ x.mounts ↔ IsMountOf w m := by
  obtain rfl := workload_of_deployed h
  obtain ⟨hsecrets, hconfigMaps⟩ := attached_of_deployed h
  simp only [Deployed.mounts, List.mem_append, List.mem_map, or_assoc, IsMountOf,
    mem_attached_mounts_iff hconfigMaps, mem_attached_mounts_iff hsecrets, @eq_comm _ m]
  rfl

theorem mountsResolved_of_deployed (h : deployed files w = .ok x) (hfiles : x.files ⊆ p.files)
    (hvolumes : namedVolumes w ⊆ volumeNames p.document) (network : String) :
    MountsResolved files w p (x.service network) := by
  obtain ⟨hsecrets, hconfigMaps⟩ := attached_of_deployed h
  constructor
  · intro m
    simp only [mountsOf_service, List.mem_map, mem_mounts_iff h, @eq_comm _ m]
  · intro s hs
    exact hvolumes (List.mem_append_left _ (List.mem_map_of_mem hs))
  · intro v hv name hsource
    refine hvolumes (List.mem_append_right _ (List.mem_filterMap.mpr ⟨v, hv, ?_⟩))
    rw [hsource]
  · intro c hc hpath
    obtain ⟨data, hdata, hstored⟩ := exists_attached_files hconfigMaps configParent hc hpath
    exact ⟨data, hdata, fun e he => hfiles (List.mem_append_left _ (hstored e he))⟩
  · intro s hs hpath
    obtain ⟨data, hdata, hstored⟩ := exists_attached_files hsecrets secretParent hs hpath
    exact ⟨data, hdata, fun e he => hfiles (List.mem_append_right _ (hstored e he))⟩

/-! ### Projects -/

theorem networkNames_document (version network : String) (ds : List Deployed) :
    networkNames (document version network ds) = [network] := by
  simp [networkNames, document, Value.at_mapping, Assoc.get?_append, Assoc.get?_cons,
    Value.entries, Value.entries?, Assoc.keys]

theorem networks_of_mem_services {e : String × Value} (he : e ∈ x.services network) :
    (e.2.at "networks").items = [.text network] := by
  obtain hcompanion | hown := List.mem_append.mp he
  · obtain ⟨c, -, rfl⟩ := List.mem_map.mp hcompanion
    exact networks_companionService x.workload.name network c
  · obtain rfl := List.mem_singleton.mp hown
    exact networks_service x network

theorem companionsResolved_of_mem {all : Assoc Value} (hnodup : all.keys.Nodup)
    (hservices : x.services network ⊆ all) :
    CompanionsResolved x.workload all (x.service network) := by
  have hcompanion {c : Companion} (hc : c ∈ x.workload.companions) :
      all.get? (companionName x.workload c) =
        some (companionService x.workload.name network c) := by
    refine Assoc.get?_of_mem hnodup (hservices (List.mem_append_left _ ?_))
    exact List.mem_map_of_mem hc
  have hown : (x.workload.name, x.service network) ∈ all :=
    hservices (List.mem_append_right _ (List.mem_singleton_self _))
  constructor
  · intro c hc hinit
    refine ⟨List.mem_map.mpr ⟨_, Assoc.mem_of_get? (hcompanion hc), rfl⟩, ?_⟩
    rw [awaitedBy_service]
    exact get?_dependencies hc hinit
  · intro c hc hother
    refine ⟨_, hcompanion hc, ?_, List.mem_map.mpr ⟨_, hown, rfl⟩⟩
    rw [awaitedBy_companionService _ _ hother]
    rfl

/-- An override is for the workloads of a project. -/
theorem mem_keys_overrideDocument {version : String} {kind : ComposeOverride} {n : String}
    (hn : n ∈ (services (overrideDocument version p kind)).keys) : n ∈ p.built.map (·.1) := by
  change n ∈ Assoc.keys (Assoc.ofPairs (p.built.map _)) at hn
  rw [Assoc.mem_keys_ofPairs_iff, List.map_map] at hn
  exact hn

/-- A project whose services all have names of their own is closed. -/
theorem isClosed_of_project (h : project o files d = .ok p)
    (hnodup : (d.workloads.flatMap Workload.serviceNames).Nodup) :
    IsClosed files d.workloads p := by
  have hvolumes := (volumeNames_project h).2
  obtain ⟨ds, hds, rfl⟩ := exists_deployed_of_project h
  have hservices := services_of_nodup hds hnodup o.version (networkName d.name)
  have hkeys : (services (document o.version (networkName d.name) ds)).keys =
      d.workloads.flatMap Workload.serviceNames := by
    rw [hservices, keys_of_deployed hds]
  constructor
  · intro e he v hv
    rw [hservices] at he
    obtain ⟨x, -, he⟩ := List.mem_flatMap.mp he
    rw [networks_of_mem_services he] at hv
    refine ⟨networkName d.name, ?_, List.mem_singleton.mp hv⟩
    rw [networkNames_document]
    exact List.mem_singleton_self _
  · intro w hw
    -- no service replaces another one, so all that the workload gives is among the services
    obtain ⟨x, hx, hdeployed⟩ := exists_mem_of_mapM hds hw
    have hsubset : x.services (networkName d.name) ⊆
        services (document o.version (networkName d.name) ds) := by
      rw [hservices]
      exact fun e he => List.mem_flatMap.mpr ⟨x, hx, he⟩
    obtain rfl := workload_of_deployed hdeployed
    refine ⟨x.service (networkName d.name), ?_, ?_, ?_⟩
    · refine get?_services_of_nodup hds hnodup o.version hx ?_
      exact List.mem_append_right _ (List.mem_singleton_self _)
    · exact mountsResolved_of_deployed hdeployed
        (fun f hf => List.mem_flatMap.mpr ⟨x, hx, hf⟩)
        (fun v hv => (hvolumes v).mpr ⟨x.workload, hw, hv⟩) _
    · exact companionsResolved_of_mem (hkeys ▸ hnodup) hsubset
  · intro version kind n hn
    have hbuilt := mem_keys_overrideDocument hn
    rw [List.map_map] at hbuilt
    obtain ⟨w, hw, rfl⟩ := List.mem_map.mp hbuilt
    rw [hkeys]
    exact List.mem_flatMap.mpr ⟨w, hw, Workload.mem_serviceNames_iff.mpr (.inr rfl)⟩

/-- An application with storage, a mounted ConfigMap, a migration that runs before it and a proxy
beside it. -/
theorem isClosed_shop :
    let settings := ((ConfigMap.named "settings").add (.literal "app.conf" "debug=false")
      |>.withMountPath "/etc/shop")
    let web : App := (App.named "web").mapWorkload fun w =>
      (w.addStorage { name := "data", mountPath := "/data", size := "1Gi" }).addConfigMap settings
        |>.addCompanion { name := "migrate", image := "migrate:4", isInit := true }
        |>.addCompanion { name := "proxy", image := "envoy:1.30" }
    let shop := Definition.group { name := "shop" } [.app web] false
    (shop.workloads.flatMap Workload.serviceNames).Nodup ∧
      ∃ p, project {} .empty shop = .ok p ∧ IsClosed .empty shop.workloads p ∧
        ⟨"config/settings/app.conf", Bytes.ofText "debug=false"⟩ ∈ p.files := by
  intro settings web shop
  obtain ⟨p, hp⟩ : ∃ p, project {} .empty shop = .ok p := ⟨_, rfl⟩
  have hnodup : (shop.workloads.flatMap Workload.serviceNames).Nodup := by
    have hworkloads : shop.workloads = [web.workload] := rfl
    rw [hworkloads]
    decide +kernel
  have hclosed := isClosed_of_project hp hnodup
  refine ⟨hnodup, p, hp, hclosed, ?_⟩
  obtain ⟨s, -, hmounts, -⟩ := hclosed.workloads web.workload (List.mem_singleton_self _)
  obtain ⟨data, hdata, hfiles⟩ :=
    hmounts.configMaps settings (List.mem_singleton_self _) rfl
  obtain rfl := Except.ok.inj hdata
  have hpath : directoryOf "config" "settings" ++ "/" ++ Name.fileName "app.conf" =
      "config/settings/app.conf" := by decide +kernel
  rw [← hpath]
  exact hfiles ("app.conf", Bytes.ofText "debug=false") (List.mem_singleton_self _)

end Rollout.Compose
