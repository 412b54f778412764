import Rollout.Proofs.App.Reference
import Rollout.Proofs.Compose.Volume
import Rollout.Proofs.Definition.Kind

/-!
# The storage of applications

Each application asks for a claim for each of its storages, its pods mount these claims, and compose
declares a volume for each of them. A group keeps one record of each claim and a project one volume
of each name. So two applications with claims of one name have one disk: in a cluster if they live
in one namespace, with compose in any case.
-/

namespace Rollout

variable {files : FileTree} {rs own : List Record} {r x : Record}

namespace App

variable {a : App}

/-- The claim for a storage of a workload. -/
def claimOf (w : Workload) (s : Storage) : Identity :=
  ⟨"PersistentVolumeClaim", w.claimName s, some w.info.ns⟩

/-- The claims that the pods of an application mount for its storage. -/
def claims (a : App) : List Identity := a.workload.storage.map (claimOf a.workload)

/-- The Deployment of an application has a volume for each storage, and it is backed by the claim
for that storage. -/
def MountsClaims (files : FileTree) (a : App) : Prop :=
  ∃ own, a.records files = .ok own ∧ ∃ r ∈ own,
    r.Describes ⟨"Deployment", a.info.name, some a.info.ns⟩ ∧
      ∀ s ∈ a.workload.storage, ∃ v ∈ r.podVolumes, v.nameOf? = some s.name ∧
        v.volumeTargets = [⟨"PersistentVolumeClaim", a.workload.claimName s⟩]

theorem mountsClaims (h : a.records files = .ok own) : a.MountsClaims files := by
  obtain ⟨notes, -, -, hmem, -⟩ := parts_of_records h
  have hrun : a.workload.IsRunBy .claims (a.deploymentRecord notes) := ⟨notes, rfl⟩
  have hscope : Kind.isClusterScoped "Deployment" = false := by decide
  have hdescribes : (a.deploymentRecord notes).Describes
      (.placed "Deployment" a.info.name a.info.ns) :=
    Record.describes_of_meta (by decide) (by decide) _ a.info _
  rw [Identity.placed_of_namespaced hscope] at hdescribes
  refine ⟨own, h, _, hmem, hdescribes, fun s hs => ⟨a.workload.storageVolume s, ?_, rfl, rfl⟩⟩
  rw [hrun.podVolumes]
  exact Workload.mem_podVolumes_iff.mpr (.inr (.inr (.inr ⟨rfl, s, hs, rfl⟩)))

theorem identities_claimRecords (a : App) : a.claimRecords.map Record.identity = a.claims := by
  rw [claimRecords, claims, List.map_map]
  exact List.map_congr_left fun s _ => Record.identity_of_meta _ _ _ _ _

end App

/-! ### The claims among the records of a unit -/

theorem Definition.IsSingle.typeName_ne_claim {d : Definition} (hd : d.IsSingle) :
    d.typeName ≠ "PersistentVolumeClaim" := by
  have hkinds : "PersistentVolumeClaim" ∉ singleKinds := by decide
  exact fun he => hkinds (he ▸ hd.typeName_mem_singleKinds)

/-- Nothing that is nested in an application has a claim. -/
theorem Workload.Composed.mem_own_of_claim {w : Workload} {nested : List Definition}
    (h : w.Composed files own nested rs) (hx : x ∈ rs) (hkind : x.kind = "PersistentVolumeClaim") :
    x ∈ own :=
  h.mem_own hx fun _ hd => hkind ▸ hd.single.typeName_ne_claim

/-- The claims among the records of an application are those for its storage. -/
theorem App.claim_mem_iff {a : App} (h : a.records files = .ok own) :
    x ∈ own ∧ x.kind = "PersistentVolumeClaim" ↔ x ∈ a.claimRecords := by
  obtain ⟨notes, hcomposed⟩ := composed h
  constructor
  · rintro ⟨hx, hkind⟩
    simpa [hkind] using cases_of_mem_ownRecords (hcomposed.mem_own_of_claim hx hkind)
  · intro hclaim
    have hown : x ∈ a.ownRecords notes := mem_ownRecords_iff.mpr (.inr (.inr (.inl hclaim)))
    refine ⟨(hcomposed.mem_iff x).mpr (.inl hown), ?_⟩
    obtain ⟨s, -, rfl⟩ := List.mem_map.mp hclaim
    rfl

theorem StatefulApp.kind_ne_claim {a : StatefulApp} (h : a.records files = .ok own)
    (hx : x ∈ own) : x.kind ≠ "PersistentVolumeClaim" := by
  obtain ⟨notes, hcomposed⟩ := composed h
  intro hkind
  obtain rfl | rfl | ⟨b, -, hbackup⟩ :=
    mem_ownRecords_iff.mp (hcomposed.mem_own_of_claim hx hkind)
  · exact absurd hkind (by decide : "StatefulSet" ≠ "PersistentVolumeClaim")
  · exact absurd hkind (by decide : "Service" ≠ "PersistentVolumeClaim")
  · obtain rfl := List.mem_singleton.mp hbackup
    exact absurd hkind (by decide : "CronJob" ≠ "PersistentVolumeClaim")

theorem NamespaceDefinition.kind_ne_claim {n : NamespaceDefinition} (hx : x ∈ n.records) :
    x.kind ≠ "PersistentVolumeClaim" := by
  have hkinds : "PersistentVolumeClaim" ∉ ["ResourceQuota", "LimitRange"] := by decide
  obtain hdescribes | ⟨kind, hkind, name, -, hdescribes⟩ := describes_of_mem_records hx
  · rw [hdescribes.kind_eq]
    exact (by decide : "Namespace" ≠ "PersistentVolumeClaim")
  · rw [hdescribes.kind_eq]
    exact fun he : kind = _ => hkinds (he ▸ hkind)

theorem CustomResource.kind_ne_claim {c : CustomResource} (hx : x ∈ c.records)
    (hkind : c.kind ≠ "PersistentVolumeClaim") : x.kind ≠ "PersistentVolumeClaim" := by
  have hkinds : "PersistentVolumeClaim" ∉ controllerKinds := by decide
  obtain rfl | ⟨controller, -, hx⟩ | ⟨i, -, rfl⟩ := mem_records_iff.mp hx
  · exact (by decide : "CustomResourceDefinition" ≠ "PersistentVolumeClaim")
  · obtain ⟨kind, hmem, hdescribes⟩ := describes_of_mem_controllerRecords hx
    rw [hdescribes.kind_eq]
    exact fun he : kind = _ => hkinds (he ▸ hmem)
  · rw [(c.describes_instanceRecord i).kind_eq]
    exact hkind

namespace Definition

/-- The application that a definition is. -/
def app? : Definition → Option App
  | app a => some a
  | _ => none

/-- Beside applications only custom kinds may have records that are called claims. -/
theorem IsUnit.claim_mem_iff {d : Definition} (hd : d.IsUnit) (h : d.records files = .ok own)
    (hcustom : "PersistentVolumeClaim" ∉ d.customKinds) :
    x ∈ own ∧ x.kind = "PersistentVolumeClaim" ↔ ∃ a, d.app? = some a ∧ x ∈ a.claimRecords := by
  have hnone (happ : d.app? = none) (hkind : x ∈ own → x.kind ≠ "PersistentVolumeClaim") :
      x ∈ own ∧ x.kind = "PersistentVolumeClaim" ↔
        ∃ a, d.app? = some a ∧ x ∈ a.claimRecords := by
    simp only [happ, reduceCtorEq, false_and, exists_false, iff_false, not_and]
    exact hkind
  by_cases hsingle : d.IsSingle
  · refine hnone (by cases d <;> first | rfl | exact hsingle.elim) fun hx => ?_
    obtain ⟨y, rfl, hy⟩ := describes_of_isSingle hsingle h
    obtain rfl := List.mem_singleton.mp hx
    rw [hy.kind_eq]
    exact hsingle.typeName_ne_claim
  · cases d with
    | app a => simpa [app?] using App.claim_mem_iff h
    | statefulApp a => exact hnone rfl fun hx => StatefulApp.kind_ne_claim h hx
    | binding scope b =>
      obtain rfl := Except.ok.inj h
      refine hnone rfl fun hx => ?_
      obtain ⟨name, -, hdescribes⟩ := Binding.describes_of_mem_records hx
      rw [hdescribes.kind_eq]
      cases scope <;> simp [Identity.placed, RoleScope.bindingKind]
    | ofNamespace n =>
      obtain rfl := Except.ok.inj h
      exact hnone rfl NamespaceDefinition.kind_ne_claim
    | customResource c =>
      obtain rfl := Except.ok.inj h
      refine hnone rfl fun hx => CustomResource.kind_ne_claim hx fun hkind => hcustom ?_
      rw [← hkind]
      exact List.mem_singleton_self c.kind
    | group => exact hd.elim
    | _ => exact absurd trivial hsingle

/-- The applications in a definition, from left to right. -/
def apps (d : Definition) : List App := d.units.filterMap (·.1.app?)

/-- The claims for all storage that the applications in a definition declare. -/
def claims (d : Definition) : List Identity := d.apps.flatMap App.claims

/-- The names that compose has for the volumes of this storage. -/
def storageVolumes (d : Definition) : List String :=
  d.apps.flatMap fun a => a.workload.storage.map a.workload.claimName

/-- No two applications in one namespace call a claim the same. -/
def ClaimsApart (d : Definition) : Prop :=
  d.apps.Pairwise fun a b => a.info.ns = b.info.ns → ¬ a.workload.SharesClaim b.workload

/-- No two applications at all call a claim the same. -/
def VolumesApart (d : Definition) : Prop :=
  d.apps.Pairwise fun a b => ¬ a.workload.SharesClaim b.workload

variable {d : Definition}

theorem mem_apps_iff {a : App} : a ∈ d.apps ↔ ∃ u ∈ d.units, u.1.app? = some a :=
  List.mem_filterMap

theorem eq_app_of_app? {a : App} (h : d.app? = some a) : d = app a := by
  cases d with
  | app => exact congrArg app (Option.some.inj h)
  | _ => exact absurd h nofun

theorem apps_group (info : Meta) (members : List Definition) (create : Bool) :
    (group info members create).apps = members.flatMap apps := by
  have hnamespace : (namespaceUnits info create).filterMap (·.1.app?) = [] := by
    cases create <;> rfl
  rw [apps, units, List.filterMap_map, List.filterMap_append]
  change (namespaceUnits info create).filterMap (·.1.app?) ++
    (memberUnits members).filterMap (·.1.app?) = _
  rw [hnamespace, memberUnits_eq, List.filterMap_flatMap]
  rfl

theorem memberWorkloads_eq (ds : List Definition) : memberWorkloads ds = ds.flatMap workloads := by
  induction ds with
  | nil => rfl
  | cons d ds ih => rw [memberWorkloads, ih, List.flatMap_cons]

theorem workload_mem_of_mem_apps {a : App} (h : a ∈ d.apps) : a.workload ∈ d.workloads := by
  induction d using treeInduction with
  | unit d hd =>
    rw [apps, units_of_isUnit hd] at h
    obtain ⟨u, hu, happ⟩ := List.mem_filterMap.mp h
    obtain rfl := List.mem_singleton.mp hu
    obtain rfl := eq_app_of_app? happ
    exact List.mem_singleton_self _
  | group info members create ih =>
    rw [apps_group] at h
    obtain ⟨d, hd, hmem⟩ := List.mem_flatMap.mp h
    rw [workloads, memberWorkloads_eq]
    exact List.mem_flatMap.mpr ⟨d, hd, ih d hd hmem⟩

theorem claims_subset (h : d.records files = .ok rs) : d.claims ⊆ rs.map Record.identity := by
  intro id hid
  obtain ⟨a, ha, hid⟩ := List.mem_flatMap.mp hid
  obtain ⟨u, hu, happ⟩ := mem_apps_iff.mp ha
  obtain ⟨own, hown, hsubset⟩ := identities_of_units h u hu
  rw [eq_app_of_app? happ] at hown
  rw [← a.identities_claimRecords] at hid
  obtain ⟨x, hx, rfl⟩ := List.mem_map.mp hid
  exact hsubset (List.mem_map_of_mem ((App.claim_mem_iff hown).mpr hx).1)

/-- The claims among the records are those of the applications, unless a custom kind is called like
that. -/
theorem kind_eq_claim_iff (h : d.records files = .ok rs)
    (hcustom : "PersistentVolumeClaim" ∉ d.customKinds) (hr : r ∈ rs) :
    r.kind = "PersistentVolumeClaim" ↔ r.identity ∈ d.claims := by
  constructor
  · intro hkind
    obtain ⟨u, hu, own, hown, x, hx, rfl⟩ := exists_unit_of_mem h hr
    rw [(extends_labelledBy u.2 x).kind] at hkind
    have hunit : "PersistentVolumeClaim" ∉ u.1.customKinds :=
      fun hmem => hcustom (customKinds_subset_of_mem_units u hu hmem)
    obtain ⟨a, happ, hclaim⟩ :=
      ((isUnit_of_mem_units u hu).claim_mem_iff hown hunit).mp ⟨hx, hkind⟩
    refine List.mem_flatMap.mpr ⟨a, mem_apps_iff.mpr ⟨u, hu, happ⟩, ?_⟩
    rw [identity_labelledBy, ← a.identities_claimRecords]
    exact List.mem_map_of_mem hclaim
  · intro hclaim
    obtain ⟨a, -, hid⟩ := List.mem_flatMap.mp hclaim
    obtain ⟨s, -, hid⟩ := List.mem_map.mp hid
    exact congrArg Identity.kind hid.symm

theorem length_claims (d : Definition) :
    d.claims.length = (d.apps.flatMap (·.workload.storage)).length := by
  simp [claims, App.claims, List.length_flatMap]

theorem length_storageVolumes (d : Definition) :
    d.storageVolumes.length = (d.apps.flatMap (·.workload.storage)).length := by
  simp [storageVolumes, List.length_flatMap]

theorem claimOf_eq_iff (w v : Workload) (s t : Storage) : App.claimOf w s = App.claimOf v t ↔
    w.info.ns = v.info.ns ∧ w.claimName s = v.claimName t := by
  simp [App.claimOf, and_comm]

theorem nodup_workloadNames (hnames : (d.apps.map (·.info.name)).Nodup) :
    ((d.apps.map App.workload).map Workload.name).Nodup := by
  rwa [List.map_map]

theorem disjoint_claims_iff (hnames : (d.apps.map (·.info.name)).Nodup) :
    d.apps.Pairwise (fun a b => List.Disjoint a.claims b.claims) ↔ d.ClaimsApart := by
  have hiff := Workload.pairwise_disjoint_forStorage_iff claimOf_eq_iff (nodup_workloadNames hnames)
  rwa [List.pairwise_map, List.pairwise_map] at hiff

theorem nodup_claims_iff (hnames : (d.apps.map (·.info.name)).Nodup)
    (hstorage : ∀ a ∈ d.apps, (a.workload.storage.map (·.name)).Nodup) :
    d.claims.Nodup ↔ d.ClaimsApart := by
  have hiff := Workload.nodup_forStorage_iff claimOf_eq_iff (nodup_workloadNames hnames)
    (List.forall_mem_map.mpr hstorage)
  rwa [List.flatMap_map, List.pairwise_map] at hiff

theorem nodup_storageVolumes_iff (hnames : (d.apps.map (·.info.name)).Nodup)
    (hstorage : ∀ a ∈ d.apps, (a.workload.storage.map (·.name)).Nodup) :
    d.storageVolumes.Nodup ↔ d.VolumesApart := by
  have hmake : ∀ (w v : Workload) (s t : Storage), w.claimName s = v.claimName t ↔
      True ∧ w.claimName s = v.claimName t := fun _ _ _ _ => (and_iff_right trivial).symm
  have hiff := Workload.nodup_forStorage_iff hmake (nodup_workloadNames hnames)
    (List.forall_mem_map.mpr hstorage)
  simp only [List.flatMap_map, List.pairwise_map, true_implies] at hiff
  exact hiff

/-- The applications of a group have their storage apart unless two of them call a claim the same.
Each has its pods mount a claim for each storage. If no custom kind is called like claims, the group
has no records of claims but these. There are as many of them as there is storage, and no two
applications mount the same claim, just if no two in one namespace call one the same. A compose
project declares as many volumes for the storage as there is, just if no two at all do. -/
theorem storage_apart_iff (hgroup : ¬ d.IsUnit) (h : d.records files = .ok rs)
    (hnames : (d.apps.map (·.info.name)).Nodup)
    (hstorage : ∀ a ∈ d.apps, (a.workload.storage.map (·.name)).Nodup) :
    (∀ a ∈ d.apps, a.MountsClaims files) ∧
      ("PersistentVolumeClaim" ∉ d.customKinds →
        ∀ r ∈ rs, r.kind = "PersistentVolumeClaim" ↔ r.identity ∈ d.claims) ∧
      ((rs.filter (·.identity ∈ d.claims)).length =
        (d.apps.flatMap (·.workload.storage)).length ↔ d.ClaimsApart) ∧
      (d.apps.Pairwise (fun a b => List.Disjoint a.claims b.claims) ↔ d.ClaimsApart) ∧
      ∀ o p, Compose.project o files d = .ok p →
        (((Compose.volumeNames p.document).filter (· ∈ d.storageVolumes)).length =
          (d.apps.flatMap (·.workload.storage)).length ↔ d.VolumesApart) := by
  refine ⟨fun a ha => ?_, fun hcustom r hr => kind_eq_claim_iff h hcustom hr, ?_,
    disjoint_claims_iff hnames, fun o p hp => ?_⟩
  · obtain ⟨u, hu, happ⟩ := mem_apps_iff.mp ha
    obtain ⟨own, hown, -⟩ := identities_of_units h u hu
    rw [eq_app_of_app? happ] at hown
    exact App.mountsClaims hown
  · have hfilter : ((rs.map Record.identity).filter (· ∈ d.claims)).length =
        (rs.filter (·.identity ∈ d.claims)).length := by
      rw [List.filter_map, List.length_map]
      rfl
    rw [← hfilter, ← length_claims, ← nodup_claims_iff hnames hstorage]
    exact length_filter_mem_eq_iff (nodup_identities hgroup h) (claims_subset h)
  · obtain ⟨hnodup, hmem⟩ := Compose.volumeNames_project hp
    have hsubset : d.storageVolumes ⊆ Compose.volumeNames p.document := by
      intro v hv
      obtain ⟨a, ha, hv⟩ := List.mem_flatMap.mp hv
      exact (hmem v).mpr ⟨a.workload, workload_mem_of_mem_apps ha, List.mem_append_left _ hv⟩
    rw [← length_storageVolumes, ← nodup_storageVolumes_iff hnames hstorage]
    exact length_filter_mem_eq_iff hnodup hsubset

/-- Two applications in one namespace whose storage is called the same. -/
theorem storage_apart_shop :
    let data : Storage := { name := "data", mountPath := "/data", size := "1Gi" }
    let web := App.named "web" |>.mapWorkload (·.addStorage data)
    let api := App.named "api" |>.mapWorkload (·.addStorage data)
    let shop := group { name := "shop" } [app web, app api] false
    ∃ rs p, shop.records .empty = .ok rs ∧ Compose.project {} .empty shop = .ok p ∧
      web.MountsClaims .empty ∧ api.MountsClaims .empty ∧ List.Disjoint web.claims api.claims ∧
      (rs.filter (·.identity ∈ shop.claims)).length = 2 ∧
      ((Compose.volumeNames p.document).filter (· ∈ shop.storageVolumes)).length = 2 := by
  intro data web api shop
  obtain ⟨rs, hrs⟩ : ∃ rs, shop.records .empty = .ok rs := ⟨_, rfl⟩
  obtain ⟨p, hp⟩ : ∃ p, Compose.project {} .empty shop = .ok p := ⟨_, rfl⟩
  have happs : shop.apps = [web, api] := rfl
  obtain ⟨hmounts, -, hrecords, hdisjoint, hvolumes⟩ := storage_apart_iff (d := shop) id hrs
    (by decide +kernel) (by rw [happs]; decide +kernel)
  have hshares : ¬ web.workload.SharesClaim api.workload := by
    rw [Workload.sharesClaim_iff (by decide)]
    decide +kernel
  have hapart : shop.VolumesApart := List.pairwise_pair.mpr hshares
  have hclaims : shop.ClaimsApart := List.pairwise_pair.mpr fun _ => hshares
  rw [happs] at hmounts hdisjoint
  exact ⟨rs, p, hrs, hp, hmounts web (by simp), hmounts api (by simp),
    List.rel_of_pairwise_cons (hdisjoint.mpr hclaims) (List.mem_singleton_self api),
    hrecords.mpr hclaims, (hvolumes {} p hp).mpr hapart⟩

/-- An application and another one whose name goes on from its own. Nothing is wrong with them, and
yet they have one claim and one volume between them. -/
theorem storage_shared_db :
    let storage (name : String) : Storage := { name, mountPath := "/data", size := "1Gi" }
    let stored (name : String) (s : Storage) : App :=
      (App.named name).mapWorkload fun w => (w.withImage "postgres:16").addStorage s
    let db := stored "db" (storage "main-data")
    let main := stored "db-main" (storage "data")
    let shop := group { name := "shop" } [app db, app main] false
    (shop.apps.map (·.info.name)).Nodup ∧
      (∀ a ∈ shop.apps, (a.workload.storage.map (·.name)).Nodup) ∧
      shop.problems .empty = [] ∧ (shop.apps.flatMap (·.workload.storage)).length = 2 ∧
      ∃ rs p, shop.records .empty = .ok rs ∧ Compose.project {} .empty shop = .ok p ∧
        (rs.filter (·.kind = "PersistentVolumeClaim")).map Record.identity =
          [⟨"PersistentVolumeClaim", "db-main-data", some "default"⟩] ∧
        db.claims = main.claims ∧ Compose.volumeNames p.document = ["db-main-data"] := by
  intro storage stored db main shop
  have happs : shop.apps = [db, main] := rfl
  refine ⟨by decide +kernel, by rw [happs]; decide +kernel, by decide +kernel, rfl, _, _, rfl, rfl,
    by decide +kernel, by decide +kernel, by decide +kernel⟩

end Definition

end Rollout
