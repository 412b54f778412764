import Mathlib.Logic.Basic
import Rollout.Definition.Basic
import Rollout.Proofs.Record.Object
import Rollout.Proofs.Workload.Adoption

/-!
# What is nested in applications

Routes, configuration, jobs and an account may be nested in an application. Each of them is a
definition in its own right. The records of the application are those of its own and, for each
definition nested in it, the one record that this definition has by itself, moved into the
namespace of the application unless it was given one of its own.
-/

namespace Rollout

variable {files : FileTree} {rs ss : List Record} {r : Record}

namespace Definition

/-- The definition makes one record, of the kind that its type is called by. -/
def IsSingle : Definition → Prop
  | configMap _ | secret _ | job _ | cronJob _ | service _ | ingress _ | networkPolicy _
  | serviceAccount _ | role .. => True
  | _ => False

theorem describes_of_isSingle {d : Definition} (hd : d.IsSingle) (h : d.records files = .ok rs) :
    ∃ x, rs = [x] ∧ x.Describes (.placed d.typeName d.name d.info.ns) := by
  cases d with
  | configMap c =>
    obtain ⟨data, -, rfl⟩ := map_eq_ok_iff.mp h
    exact ⟨_, rfl, Record.describes_of_meta (by decide) (by decide) _ _ _⟩
  | secret s =>
    obtain ⟨data, -, rfl⟩ := map_eq_ok_iff.mp h
    exact ⟨_, rfl, Record.describes_of_meta (by decide) (by decide) _ _ _⟩
  | job j | cronJob j | service s | ingress i | networkPolicy p | serviceAccount a =>
    obtain rfl := Except.ok.inj h
    exact ⟨_, rfl, Record.describes_of_meta (by decide) (by decide) _ _ _⟩
  | role scope role =>
    obtain rfl := Except.ok.inj h
    refine ⟨_, rfl, Record.describes_of_meta (by decide) ?_ _ _ _⟩
    cases scope <;> decide
  | app | statefulApp | binding | customResource | ofNamespace | group => exact hd.elim

/-- The definition is of a type that can be nested in an application. -/
def IsNested : Definition → Prop
  | configMap _ | secret _ | job _ | cronJob _ | ingress _ | serviceAccount _ => True
  | _ => False

theorem IsNested.single {d : Definition} (hd : d.IsNested) : d.IsSingle := by
  cases d with
  | configMap | secret | job | cronJob | ingress | serviceAccount => trivial
  | _ => exact hd.elim

theorem IsNested.namespaced {d : Definition} (hd : d.IsNested) :
    Kind.isClusterScoped d.typeName = false := by
  cases d with
  | configMap | secret | job | cronJob | ingress | serviceAccount => rfl
  | _ => exact hd.elim

theorem IsNested.describes {d : Definition} (hd : d.IsNested) (h : d.records files = .ok rs) :
    ∃ x, rs = [x] ∧ x.Describes ⟨d.typeName, d.name, some d.info.ns⟩ := by
  rw [← Identity.placed_of_namespaced hd.namespaced]
  exact describes_of_isSingle hd.single h

/-- All of the definitions generate, and the records are theirs, taken together. -/
structure Gather (files : FileTree) (ds : List Definition) (rs : List Record) : Prop where
  generates : ∀ d ∈ ds, ∃ part, d.records files = .ok part
  mem_iff : ∀ r, r ∈ rs ↔ ∃ d ∈ ds, ∃ part, d.records files = .ok part ∧ r ∈ part

theorem Gather.append {ds es : List Definition} (hr : Gather files ds rs)
    (hs : Gather files es ss) : Gather files (ds ++ es) (rs ++ ss) where
  generates := List.forall_mem_append.mpr ⟨hr.generates, hs.generates⟩
  mem_iff := by
    intro r
    rw [List.mem_append, hr.mem_iff, hs.mem_iff]
    simp only [List.mem_append, or_and_right, exists_or]

theorem gather_flatMap {α : Type} {f : α → Definition} {g : α → List Record}
    (h : ∀ a, (f a).records files = .ok (g a)) (as : List α) :
    Gather files (as.map f) (as.flatMap g) where
  generates := List.forall_mem_map.mpr fun a _ => ⟨g a, h a⟩
  mem_iff := by
    intro r
    simp only [List.mem_flatMap, List.mem_map, exists_exists_and_eq_and, h, Except.ok.injEq,
      exists_eq_left']

theorem gather_option {α : Type} {f : α → Definition} {g : α → List Record}
    (h : ∀ a, (f a).records files = .ok (g a)) (a : Option α) :
    Gather files (a.toList.map f) ((a.map g).getD []) := by
  cases a with
  | none => exact gather_flatMap h []
  | some a => simpa using gather_flatMap h [a]

theorem gather_mapM {α : Type} {f : α → Definition} {g : α → Except SourceError (List Record)}
    (h : ∀ a, (f a).records files = g a) {as : List α} {parts : List (List Record)}
    (hparts : as.mapM g = .ok parts) : Gather files (as.map f) parts.flatten where
  generates := by
    refine List.forall_mem_map.mpr fun a ha => ?_
    obtain ⟨part, -, hg⟩ := exists_mem_of_mapM hparts ha
    exact ⟨part, (h a).trans hg⟩
  mem_iff := by
    intro r
    simp only [List.mem_flatten, List.mem_map, exists_exists_and_eq_and, h]
    constructor
    · rintro ⟨part, hpart, hr⟩
      obtain ⟨a, ha, hg⟩ := exists_of_mem_mapM hparts hpart
      exact ⟨a, ha, part, hg, hr⟩
    · rintro ⟨a, ha, part, hg, hr⟩
      obtain ⟨part', hmem, hg'⟩ := exists_mem_of_mapM hparts ha
      obtain rfl := Except.ok.inj (hg.symm.trans hg')
      exact ⟨part, hmem, hr⟩

/-- Each of the records is the only one of a definition. -/
theorem Gather.exists_of_mem {ds : List Definition} (h : Gather files ds rs)
    (hds : ∀ d ∈ ds, d.IsNested) (hr : r ∈ rs) : ∃ d ∈ ds, d.records files = .ok [r] ∧
      Kind.isClusterScoped d.typeName = false ∧
      r.Describes ⟨d.typeName, d.name, some d.info.ns⟩ := by
  obtain ⟨d, hd, part, hpart, hr⟩ := (h.mem_iff r).mp hr
  obtain ⟨x, rfl, hx⟩ := (hds d hd).describes hpart
  obtain rfl := List.mem_singleton.mp hr
  exact ⟨d, hd, hpart, (hds d hd).namespaced, hx⟩

end Definition

open Definition

/-! ### Moving into the namespace of a workload -/

namespace Workload

/-- A record that lives in a namespace moves only if this is the default one. -/
theorem adoptRecord_of_describes {kind name own : String}
    (hscope : Kind.isClusterScoped kind = false) (h : r.Describes ⟨kind, name, some own⟩)
    (ns : String) :
    adoptRecord ns r = if own = defaultNamespace then r.setNamespace ns else r := by
  simp only [adoptRecord, h.kind_eq, hscope, h.namespace?_eq, Bool.false_eq_true, if_false]

theorem describes_adoptRecord {kind name own : String}
    (hscope : Kind.isClusterScoped kind = false) (h : r.Describes ⟨kind, name, some own⟩)
    (ns : String) :
    (adoptRecord ns r).Describes
      ⟨kind, name, some (if own = defaultNamespace then ns else own)⟩ := by
  rw [adoptRecord_of_describes hscope h]
  split
  · exact h.setNamespace ns
  · exact h

theorem adoptRecord_default {kind name own : String}
    (hscope : Kind.isClusterScoped kind = false) (h : r.Describes ⟨kind, name, some own⟩) :
    adoptRecord defaultNamespace r = r := by
  rw [adoptRecord_of_describes hscope h]
  split
  · rename_i hown
    subst hown
    exact h.setNamespace_self
  · rfl

variable {w : Workload}

theorem adopt_eq_map {ds : List Definition} (h : Gather files ds rs)
    (hds : ∀ d ∈ ds, d.IsNested) : w.adopt rs = rs.map (adoptRecord w.info.ns) := by
  unfold adopt
  split
  · rename_i hdefault
    refine (List.map_id rs).symm.trans (List.map_congr_left fun r hr => ?_)
    obtain ⟨d, hd, -, hscope, hr⟩ := h.exists_of_mem hds hr
    rw [hdefault, adoptRecord_default hscope hr]
    rfl
  · rfl

/-- The attached configuration. -/
def configuration (w : Workload) : List Definition :=
  w.configMaps.map .configMap ++ w.secrets.map .secret

theorem isNested_of_mem_configuration {d : Definition} (h : d ∈ w.configuration) : d.IsNested := by
  simp only [configuration, List.mem_append, List.mem_map] at h
  obtain ⟨c, -, rfl⟩ | ⟨s, -, rfl⟩ := h
  · trivial
  · trivial

theorem configRecords_eq_map {config : List Record} (h : w.configRecords files = .ok config) :
    ∃ inner, Gather files w.configuration inner ∧ config = inner.map (adoptRecord w.info.ns) := by
  obtain ⟨maps, secrets, hmaps, hsecrets, rfl⟩ := configRecords_eq h
  have hconfigMaps : Gather files (w.configMaps.map .configMap) maps.flatten :=
    gather_mapM (fun _ => rfl) hmaps
  have hsecrets : Gather files (w.secrets.map .secret) secrets.flatten :=
    gather_mapM (fun _ => rfl) hsecrets
  have hgather := hconfigMaps.append hsecrets
  exact ⟨_, hgather, adopt_eq_map hgather fun _ => isNested_of_mem_configuration⟩

/-! ### The records of an application -/

/-- The kinds of the records that an application has itself. -/
def ownKinds : List String :=
  ["Deployment", "StatefulSet", "Service", "PersistentVolumeClaim", "HorizontalPodAutoscaler",
    "ServiceMonitor", "CronJob"]

/-- The record describes an object of the workload itself, in the namespace of the workload. Its
name is not empty if that of the workload is not. -/
def Owns (w : Workload) (r : Record) : Prop :=
  ∃ kind ∈ ownKinds, ∃ name, (w.name ≠ "" → name ≠ "") ∧ r.Describes ⟨kind, name, some w.info.ns⟩

/-- How the records of an application are put together. Some are those of the workload itself. Each
definition that is nested in the application has one more, moved into the namespace of the workload
unless it has another one. -/
structure Composed (files : FileTree) (w : Workload) (own : List Record)
    (nested : List Definition) (rs : List Record) : Prop where
  owns : ∀ r ∈ own, w.Owns r
  isNested : ∀ d ∈ nested, d.IsNested
  generates : ∀ d ∈ nested, ∃ x, d.records files = .ok [x]
  mem_iff : ∀ r, r ∈ rs ↔ r ∈ own ∨
    ∃ d ∈ nested, ∃ x, d.records files = .ok [x] ∧ r = adoptRecord w.info.ns x

theorem composed_of_gather {own inner : List Record} {nested : List Definition}
    (hown : ∀ r ∈ own, w.Owns r) (hnested : ∀ d ∈ nested, d.IsNested)
    (hinner : Gather files nested inner)
    (hrs : ∀ r, r ∈ rs ↔ r ∈ own ∨ r ∈ inner.map (adoptRecord w.info.ns)) :
    w.Composed files own nested rs where
  owns := hown
  isNested := hnested
  generates := by
    intro d hd
    obtain ⟨part, hpart⟩ := hinner.generates d hd
    obtain ⟨x, rfl, -⟩ := (hnested d hd).describes hpart
    exact ⟨x, hpart⟩
  mem_iff := by
    intro r
    rw [hrs, List.mem_map]
    refine or_congr_right ⟨?_, ?_⟩
    · rintro ⟨x, hx, rfl⟩
      obtain ⟨d, hd, hrecords, -⟩ := hinner.exists_of_mem hnested hx
      exact ⟨d, hd, x, hrecords, rfl⟩
    · rintro ⟨d, hd, x, hrecords, rfl⟩
      exact ⟨x, (hinner.mem_iff x).mpr ⟨d, hd, _, hrecords, List.mem_singleton_self x⟩, rfl⟩

/-- What the record of a nested definition describes before it is moved. -/
theorem Composed.describes {own : List Record} {nested : List Definition}
    (h : w.Composed files own nested rs) {d : Definition} (hd : d ∈ nested) {x : Record}
    (hx : d.records files = .ok [x]) : x.Describes ⟨d.typeName, d.name, some d.info.ns⟩ := by
  obtain ⟨y, hy, hdescribes⟩ := (h.isNested d hd).describes hx
  exact (List.cons.inj hy).1 ▸ hdescribes

end Workload

namespace App

variable {a : App}

/-- The routes to an application, with all their backends. -/
def routes (a : App) : List Definition := a.ingresses.map fun i => .ingress (a.routed i)

/-- The jobs of an application and the account of its pods. -/
def attached (a : App) : List Definition :=
  a.jobs.map .job ++ a.cronJobs.map .cronJob ++
    a.managedServiceAccount.toList.map .serviceAccount

/-- All that is nested in an application. -/
def nested (a : App) : List Definition := a.routes ++ a.workload.configuration ++ a.attached

/-- The records that are of the application itself. -/
def ownRecords (a : App) (notes : Assoc String) : List Record :=
  a.deploymentRecord notes :: (if a.hasService then [a.serviceRecord] else []) ++
    a.claimRecords ++ (a.scaling.record? a.info).toList ++ a.monitorRecord?.toList

theorem isNested_of_mem_nested {d : Definition} (h : d ∈ a.nested) : d.IsNested := by
  simp only [nested, routes, attached, List.mem_append, List.mem_map] at h
  obtain (⟨i, -, rfl⟩ | h) | (⟨j, -, rfl⟩ | ⟨j, -, rfl⟩) | ⟨x, -, rfl⟩ := h
  · trivial
  · exact Workload.isNested_of_mem_configuration h
  · trivial
  · trivial
  · trivial

/-- What is in `ownRecords`, record by record. -/
theorem mem_ownRecords_iff {notes : Assoc String} : r ∈ a.ownRecords notes ↔
    r = a.deploymentRecord notes ∨ (a.hasService = true ∧ r = a.serviceRecord) ∨
      r ∈ a.claimRecords ∨ a.scaling.record? a.info = some r ∨ a.monitorRecord? = some r := by
  simp only [ownRecords, List.cons_append, List.mem_cons, List.mem_append, Option.mem_toList,
    or_assoc]
  split <;> rename_i hservice <;> simp [hservice]

theorem owns_of_mem_ownRecords {notes : Assoc String} (h : r ∈ a.ownRecords notes) :
    a.workload.Owns r := by
  obtain rfl | ⟨-, rfl⟩ | h | h | h := mem_ownRecords_iff.mp h
  · exact ⟨"Deployment", by decide, a.info.name, id,
      Record.describes_of_meta (by decide) (by decide) _ _ _⟩
  · exact ⟨"Service", by decide, a.info.name, id,
      Record.describes_of_meta (by decide) (by decide) _ _ _⟩
  · obtain ⟨s, -, rfl⟩ := List.mem_map.mp h
    refine ⟨"PersistentVolumeClaim", by decide, a.workload.claimName s, fun hname => ?_,
      Record.describes_of_meta (by decide) (by decide) _ _ _⟩
    simp [Workload.claimName, hname]
  · obtain ⟨b, -, rfl⟩ := Option.map_eq_some_iff.mp h
    exact ⟨"HorizontalPodAutoscaler", by decide, a.info.name, id,
      Record.describes_of_meta (by decide) (by decide) _ _ _⟩
  · obtain ⟨m, -, rfl⟩ := Option.map_eq_some_iff.mp h
    exact ⟨"ServiceMonitor", by decide, a.info.name, id,
      Record.describes_of_meta (by decide) (by decide) _ _ _⟩

/-- The records are those of the application itself, and those of what is nested in it. -/
theorem composed (h : a.records files = .ok rs) :
    ∃ notes, a.workload.Composed files (a.ownRecords notes) a.nested rs := by
  obtain ⟨notes, -, h⟩ := bind_eq_ok_iff.mp h
  obtain ⟨config, hconfig, h⟩ := bind_eq_ok_iff.mp h
  obtain rfl := Except.ok.inj h
  obtain ⟨configured, hconfigured, rfl⟩ := Workload.configRecords_eq_map hconfig
  have hroutes : Gather files a.routes (a.ingresses.flatMap fun i => (a.routed i).records) :=
    gather_flatMap (fun _ => rfl) _
  have hattached : Gather files a.attached a.attachedRecords :=
    ((gather_flatMap (fun _ => rfl) _).append (gather_flatMap (fun _ => rfl) _)).append
      (gather_option (fun _ => rfl) _)
  have hnested : ∀ d ∈ a.nested, d.IsNested := fun d => isNested_of_mem_nested
  obtain ⟨hfirst, hlast⟩ := List.forall_mem_append.mp hnested
  rw [Workload.adopt_eq_map hroutes (List.forall_mem_append.mp hfirst).1,
    Workload.adopt_eq_map hattached hlast]
  refine ⟨notes, Workload.composed_of_gather (fun _ => owns_of_mem_ownRecords) hnested
    ((hroutes.append hconfigured).append hattached) fun r => ?_⟩
  simp only [ownRecords, List.map_append, List.mem_append, App.info]
  simp only [or_assoc, or_left_comm, or_comm]

end App

namespace StatefulApp

variable {a : StatefulApp}

/-- All that is nested in a stateful application is its configuration. -/
def nested (a : StatefulApp) : List Definition := a.workload.configuration

/-- The records that are of the stateful application itself. -/
def ownRecords (a : StatefulApp) (notes : Assoc String) : List Record :=
  a.statefulSetRecord notes :: a.serviceRecord ::
    (a.backup.map fun b => (a.backupJob b).records).getD []

theorem mem_ownRecords_iff {notes : Assoc String} : r ∈ a.ownRecords notes ↔
    r = a.statefulSetRecord notes ∨ r = a.serviceRecord ∨
      ∃ b, a.backup = some b ∧ r ∈ (a.backupJob b).records := by
  rw [ownRecords, List.mem_cons, List.mem_cons]
  cases a.backup <;> simp

theorem owns_of_mem_ownRecords {notes : Assoc String} (h : r ∈ a.ownRecords notes) :
    a.workload.Owns r := by
  obtain rfl | rfl | ⟨b, -, h⟩ := mem_ownRecords_iff.mp h
  · exact ⟨"StatefulSet", by decide, a.info.name, id,
      Record.describes_of_meta (by decide) (by decide) _ _ _⟩
  · exact ⟨"Service", by decide, a.info.name, id,
      Record.describes_of_meta (by decide) (by decide) _ _ _⟩
  · obtain rfl := List.mem_singleton.mp h
    refine ⟨"CronJob", by decide, a.info.name ++ "-backup", fun _ => ?_,
      Record.describes_of_meta (by decide) (by decide) _ (a.backupJob b).info _⟩
    simp

theorem composed (h : a.records files = .ok rs) :
    ∃ notes, a.workload.Composed files (a.ownRecords notes) a.nested rs := by
  obtain ⟨notes, -, h⟩ := bind_eq_ok_iff.mp h
  obtain ⟨config, hconfig, h⟩ := bind_eq_ok_iff.mp h
  obtain rfl := Except.ok.inj h
  obtain ⟨inner, hinner, rfl⟩ := Workload.configRecords_eq_map hconfig
  exact ⟨notes, Workload.composed_of_gather (fun _ => owns_of_mem_ownRecords)
    (fun _ => Workload.isNested_of_mem_configuration) hinner fun r => List.mem_append⟩

end StatefulApp

/-! ### The records of a kind that nothing nested has -/

/-- Nothing nested is a Deployment or a Service, scales an application or monitors one. -/
theorem Definition.IsNested.typeName_ne {d : Definition} (hd : d.IsNested) {kind : String}
    (hkind : kind ∈ ["Deployment", "Service", "HorizontalPodAutoscaler", "ServiceMonitor"]) :
    d.typeName ≠ kind := by
  rintro rfl
  cases d with
  | configMap | secret | job | cronJob | ingress | serviceAccount =>
    exact absurd hkind (by simp [typeName])
  | _ => exact hd.elim

/-- A record belongs to the application itself if nothing nested has its kind. -/
theorem Workload.Composed.mem_own {w : Workload} {own : List Record} {nested : List Definition}
    (h : w.Composed files own nested rs) (hr : r ∈ rs)
    (hkind : ∀ d : Definition, d.IsNested → d.typeName ≠ r.kind) : r ∈ own := by
  obtain hown | ⟨d, hd, x, hx, rfl⟩ := (h.mem_iff r).mp hr
  · exact hown
  · have hsame : (adoptRecord w.info.ns x).kind = d.typeName :=
      (kind_adoptRecord w.info.ns x).trans (h.describes hd hx).kind_eq
    exact absurd hsame.symm (hkind d (h.isNested d hd))

theorem Workload.Composed.mem_own_of_kind {w : Workload} {own : List Record}
    {nested : List Definition} (h : w.Composed files own nested rs) (hr : r ∈ rs)
    (hkind : r.kind ∈ ["Deployment", "Service", "HorizontalPodAutoscaler", "ServiceMonitor"]) :
    r ∈ own :=
  h.mem_own hr fun _ hd => hd.typeName_ne hkind

namespace App

variable {a : App}

/-- Which record an application itself has of a kind. -/
theorem cases_of_mem_ownRecords {notes : Assoc String} (h : r ∈ a.ownRecords notes) :
    (r.kind = "Deployment" ∧ r = a.deploymentRecord notes) ∨
      (r.kind = "Service" ∧ a.hasService = true ∧ r = a.serviceRecord) ∨
      (r.kind = "PersistentVolumeClaim" ∧ r ∈ a.claimRecords) ∨
      (r.kind = "HorizontalPodAutoscaler" ∧ a.scaling.record? a.info = some r) ∨
      (r.kind = "ServiceMonitor" ∧ a.monitorRecord? = some r) := by
  obtain rfl | ⟨hservice, rfl⟩ | hclaim | hscale | hmonitor := mem_ownRecords_iff.mp h
  · exact .inl ⟨rfl, rfl⟩
  · exact .inr (.inl ⟨rfl, hservice, rfl⟩)
  · refine .inr (.inr (.inl ⟨?_, hclaim⟩))
    obtain ⟨s, -, rfl⟩ := List.mem_map.mp hclaim
    rfl
  · refine .inr (.inr (.inr (.inl ⟨?_, hscale⟩)))
    obtain ⟨b, -, rfl⟩ := Option.map_eq_some_iff.mp hscale
    rfl
  · refine .inr (.inr (.inr (.inr ⟨?_, hmonitor⟩)))
    obtain ⟨m, -, rfl⟩ := Option.map_eq_some_iff.mp hmonitor
    rfl

theorem deployment_mem_iff (h : a.records files = .ok rs) :
    ∃ notes, ∀ r, r ∈ rs ∧ r.kind = "Deployment" ↔ r = a.deploymentRecord notes := by
  obtain ⟨notes, hcomposed⟩ := composed h
  refine ⟨notes, fun r => ⟨?_, ?_⟩⟩
  · rintro ⟨hr, hkind⟩
    simpa [hkind] using cases_of_mem_ownRecords (hcomposed.mem_own_of_kind hr (by simp [hkind]))
  · rintro rfl
    exact ⟨(hcomposed.mem_iff _).mpr (.inl (mem_ownRecords_iff.mpr (.inl rfl))), rfl⟩

theorem service_mem_iff (h : a.records files = .ok rs) :
    r ∈ rs ∧ r.kind = "Service" ↔ a.hasService = true ∧ r = a.serviceRecord := by
  obtain ⟨notes, hcomposed⟩ := composed h
  constructor
  · rintro ⟨hr, hkind⟩
    simpa [hkind] using cases_of_mem_ownRecords (hcomposed.mem_own_of_kind hr (by simp [hkind]))
  · rintro ⟨hservice, rfl⟩
    exact ⟨(hcomposed.mem_iff _).mpr (.inl (mem_ownRecords_iff.mpr (.inr (.inl ⟨hservice, rfl⟩)))),
      rfl⟩

theorem autoscaler_mem_iff (h : a.records files = .ok rs) :
    r ∈ rs ∧ r.kind = "HorizontalPodAutoscaler" ↔ a.scaling.record? a.info = some r := by
  obtain ⟨notes, hcomposed⟩ := composed h
  constructor
  · rintro ⟨hr, hkind⟩
    simpa [hkind] using cases_of_mem_ownRecords (hcomposed.mem_own_of_kind hr (by simp [hkind]))
  · intro hscale
    have hown : r ∈ a.ownRecords notes :=
      mem_ownRecords_iff.mpr (.inr (.inr (.inr (.inl hscale))))
    refine ⟨(hcomposed.mem_iff r).mpr (.inl hown), ?_⟩
    obtain ⟨b, -, rfl⟩ := Option.map_eq_some_iff.mp hscale
    rfl

theorem monitor_mem_iff (h : a.records files = .ok rs) :
    r ∈ rs ∧ r.kind = "ServiceMonitor" ↔ a.monitorRecord? = some r := by
  obtain ⟨notes, hcomposed⟩ := composed h
  constructor
  · rintro ⟨hr, hkind⟩
    simpa [hkind] using cases_of_mem_ownRecords (hcomposed.mem_own_of_kind hr (by simp [hkind]))
  · intro hmonitor
    have hown : r ∈ a.ownRecords notes :=
      mem_ownRecords_iff.mpr (.inr (.inr (.inr (.inr hmonitor))))
    refine ⟨(hcomposed.mem_iff r).mpr (.inl hown), ?_⟩
    obtain ⟨m, -, rfl⟩ := Option.map_eq_some_iff.mp hmonitor
    rfl

end App

namespace StatefulApp

variable {a : StatefulApp}

theorem service_mem_iff (h : a.records files = .ok rs) :
    r ∈ rs ∧ r.kind = "Service" ↔ r = a.serviceRecord := by
  obtain ⟨notes, hcomposed⟩ := composed h
  constructor
  · rintro ⟨hr, hkind⟩
    have hown : r ∈ a.ownRecords notes := hcomposed.mem_own_of_kind hr (by simp [hkind])
    obtain rfl | hservice | ⟨b, -, hbackup⟩ := mem_ownRecords_iff.mp hown
    · exact absurd hkind (by decide : "StatefulSet" ≠ "Service")
    · exact hservice
    · obtain rfl := List.mem_singleton.mp hbackup
      exact absurd hkind (by decide : "CronJob" ≠ "Service")
  · rintro rfl
    exact ⟨(hcomposed.mem_iff _).mpr (.inl (mem_ownRecords_iff.mpr (.inr (.inl rfl)))), rfl⟩

end StatefulApp

end Rollout
