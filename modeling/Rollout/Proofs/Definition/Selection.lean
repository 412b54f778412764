import Mathlib.Data.List.Nodup
import Rollout.Proofs.App.Nested
import Rollout.Proofs.App.Reference
import Rollout.Proofs.Definition.Unit

/-!
# Pods that are found

Services and controllers find pods by their labels. The labels of pods are the standard ones under
those of the definition, and over all of them the one by which they are found, which has the name
of the workload. So whatever labels a definition gives, the pods of an application are found by
what is its own, and by nothing else in a group where no two applications have the same name.

The pods of an application are those of its Deployment or StatefulSet. Pods of jobs are not meant to
be found, and their labels are up to the definition.
-/

namespace Rollout

variable {files : FileTree} {rs : List Record} {r s : Record} {name : String}

namespace Record

/-- The labels that pods must have to be found: those of a Service stand alone, and those of a
controller are set apart from other conditions. -/
def podSelector (r : Record) : Assoc Value :=
  (if r.kind = "Service" then r.spec.at "selector"
    else (r.spec.at "selector").at "matchLabels").entries

/-- The labels of the pods that a record runs. -/
def podLabels (r : Record) : Assoc Value :=
  (((r.spec.at "template").at "metadata").at "labels").entries

/-- The pods of a record have all labels by which another one finds pods. -/
def Selects (s r : Record) : Prop := ∀ e ∈ s.podSelector, r.podLabels.get? e.1 = some e.2

/-- What runs pods finds them itself, and every Service finds them. Neither finds all pods there
are, as it would if it asked for no labels. -/
structure FindOwnPods (rs : List Record) : Prop where
  runs : ∃ r ∈ rs, r.RunsApplication
  controllers : ∀ r ∈ rs, r.RunsApplication → r.podSelector ≠ [] ∧ r.Selects r
  services : ∀ s ∈ rs, s.kind = "Service" →
    s.podSelector ≠ [] ∧ ∀ r ∈ rs, r.RunsApplication → s.Selects r

/-- The record is one that finds pods by their labels. -/
def FindsPods (r : Record) : Prop := r.kind = "Service" ∨ r.RunsApplication

/-- The record finds pods, if it does, by a name alone, and the pods that it runs bear the name. -/
structure GoesBy (name : String) (r : Record) : Prop where
  finds : r.FindsPods → r.podSelector = [(Label.app, .text name)]
  runs : r.RunsApplication → r.podLabels.get? Label.app = some (.text name)

/-- A record that has nothing to do with pods goes by any name. -/
theorem goesBy_of_kind (kind : String) (hkind : r.kind = kind)
    (h : kind ∉ ["Service", "Deployment", "StatefulSet"]) : r.GoesBy name := by
  obtain ⟨hservice, hcontroller⟩ := not_or.mp fun hmem => h (List.mem_cons.mpr hmem)
  have hruns : ¬ r.RunsApplication := not_runsApplication hkind hcontroller
  exact ⟨fun hfinds => absurd hfinds (not_or.mpr ⟨hkind ▸ hservice, hruns⟩), fun h => absurd h hruns⟩

theorem goesBy_of_service (hkind : r.kind = "Service")
    (hselector : r.spec.at "selector" = .textMap [(Label.app, name)]) : r.GoesBy name where
  finds := by
    intro
    rw [podSelector, if_pos hkind, hselector]
    rfl
  runs := fun hruns => absurd hruns (not_runsApplication hkind (by decide))

theorem goesBy_of_controller (hkind : r.RunsApplication)
    (hselector : (r.spec.at "selector").at "matchLabels" = .textMap [(Label.app, name)])
    (hlabels : r.podLabels.get? Label.app = some (.text name)) : r.GoesBy name where
  finds := by
    intro
    have hne : r.kind ≠ "Service" := fun he => not_runsApplication he (by decide) hkind
    rw [podSelector, if_neg hne, hselector]
    rfl
  runs := fun _ => hlabels

/-- Of records that go by names, one finds the pods of the other if the names are the same. -/
theorem GoesBy.selects_iff {name' : String} (hs : s.GoesBy name) (hr : r.GoesBy name')
    (hfinds : s.FindsPods) (hruns : r.RunsApplication) :
    s.Selects r ↔ name = name' := by
  rw [Selects, hs.finds hfinds, List.forall_mem_singleton, hr.runs hruns]
  simp only [Option.some.injEq, Value.text.injEq, eq_comm]

theorem findOwnPods_of_goesBy (h : ∀ r ∈ rs, r.GoesBy name) (hruns : ∃ r ∈ rs, r.RunsApplication) :
    FindOwnPods rs where
  runs := hruns
  controllers := by
    intro r hr hruns
    refine ⟨?_, ((h r hr).selects_iff (h r hr) (.inr hruns) hruns).mpr rfl⟩
    rw [(h r hr).finds (.inr hruns)]
    exact List.cons_ne_nil _ _
  services := by
    intro s hs hservice
    refine ⟨?_, fun r hr hruns => ((h s hs).selects_iff (h r hr) (.inl hservice) hruns).mpr rfl⟩
    rw [(h s hs).finds (.inl hservice)]
    exact List.cons_ne_nil _ _

/-- Whether pods are found, and which, does not depend on the metadata of a record. -/
theorem GoesBy.of_extends (h : r.GoesBy name) (hs : Extends r s) : s.GoesBy name := by
  have hspec := hs.spec
  have hkind := hs.kind
  constructor
  · intro hfinds
    rw [FindsPods, RunsApplication, hkind] at hfinds
    rw [podSelector, hkind, hspec]
    exact h.finds hfinds
  · intro hruns
    rw [RunsApplication, hkind] at hruns
    rw [podLabels, hspec]
    exact h.runs hruns

end Record

open Record (FindOwnPods GoesBy)

/-! ### Applications -/

/-- Over all other labels of pods stands the name of the workload. -/
theorem Workload.get?_podLabels (w : Workload) : w.podLabels.get? Label.app = some w.name := by
  have hlabels : w.podLabels = w.info.allLabels.insertSorted Label.app w.name := rfl
  rw [hlabels, Assoc.get?_insertSorted, if_pos rfl]

theorem Workload.IsRunBy.get?_podLabels {w : Workload} {mode : StorageMode}
    (h : w.IsRunBy mode r) : r.podLabels.get? Label.app = some (.text w.name) := by
  obtain ⟨notes, h⟩ := h
  have hlabels : r.podLabels = w.podLabels.mapValues .text := by
    rw [Record.podLabels, h]
    rfl
  rw [hlabels, Assoc.get?_mapValues, w.get?_podLabels]
  rfl

/-- What is nested in applications neither runs their pods nor finds them. -/
theorem Definition.IsNested.typeName_notMem {d : Definition} (hd : d.IsNested) :
    d.typeName ∉ ["Service", "Deployment", "StatefulSet"] := by
  cases d with
  | configMap | secret | job | cronJob | ingress | serviceAccount => simp [typeName]
  | _ => exact hd.elim

/-- All records of an application go by its name if its own do. -/
theorem Workload.Composed.goesBy {w : Workload} {own : List Record} {nested : List Definition}
    (h : w.Composed files own nested rs) (hown : ∀ r ∈ own, r.GoesBy name) :
    ∀ r ∈ rs, r.GoesBy name := by
  intro r hr
  obtain hr | ⟨d, hd, x, hx, rfl⟩ := (h.mem_iff r).mp hr
  · exact hown r hr
  · have hkind : (adoptRecord w.info.ns x).kind = d.typeName :=
      (kind_adoptRecord w.info.ns x).trans (h.describes hd hx).kind_eq
    exact Record.goesBy_of_kind d.typeName hkind (h.isNested d hd).typeName_notMem

theorem App.goesBy_of_mem_ownRecords {a : App} {notes : Assoc String}
    (hr : r ∈ a.ownRecords notes) : r.GoesBy a.info.name := by
  obtain rfl | ⟨-, rfl⟩ | hr | hr | hr := mem_ownRecords_iff.mp hr
  · have hrun : a.workload.IsRunBy .claims (a.deploymentRecord notes) := ⟨notes, rfl⟩
    exact Record.goesBy_of_controller (.inl rfl) rfl hrun.get?_podLabels
  · refine Record.goesBy_of_service rfl ?_
    unfold serviceRecord
    cases a.serviceType <;> rfl
  · obtain ⟨c, -, rfl⟩ := List.mem_map.mp hr
    exact Record.goesBy_of_kind "PersistentVolumeClaim" rfl (by decide)
  · obtain ⟨b, -, rfl⟩ := Option.map_eq_some_iff.mp hr
    exact Record.goesBy_of_kind "HorizontalPodAutoscaler" rfl (by decide)
  · obtain ⟨m, -, rfl⟩ := Option.map_eq_some_iff.mp hr
    exact Record.goesBy_of_kind "ServiceMonitor" rfl (by decide)

theorem StatefulApp.goesBy_of_mem_ownRecords {a : StatefulApp} {notes : Assoc String}
    (hr : r ∈ a.ownRecords notes) : r.GoesBy a.info.name := by
  obtain rfl | rfl | ⟨b, -, hr⟩ := mem_ownRecords_iff.mp hr
  · have hrun : a.workload.IsRunBy .claimTemplates (a.statefulSetRecord notes) := ⟨notes, rfl⟩
    exact Record.goesBy_of_controller (.inr rfl) rfl hrun.get?_podLabels
  · exact Record.goesBy_of_service rfl rfl
  · obtain rfl := List.mem_singleton.mp hr
    exact Record.goesBy_of_kind "CronJob" rfl (by decide)

/-- All records of an application go by its name. -/
theorem Workload.goesBy_of_generatedTo {w : Workload} (h : w.GeneratedTo files rs) :
    ∀ r ∈ rs, r.GoesBy w.name := by
  obtain ⟨a, rfl, h⟩ | ⟨a, rfl, h⟩ := h
  · obtain ⟨notes, h⟩ := a.composed h
    exact h.goesBy fun _ => a.goesBy_of_mem_ownRecords
  · obtain ⟨notes, h⟩ := a.composed h
    exact h.goesBy fun _ => a.goesBy_of_mem_ownRecords

theorem Workload.exists_runsApplication {w : Workload} (h : w.GeneratedTo files rs) :
    ∃ r ∈ rs, r.RunsApplication := by
  obtain ⟨x, hx, hruns, -⟩ := w.exists_running h
  exact ⟨x, hx, hruns⟩

theorem CustomResource.goesBy_of_mem_controllerRecords {c : CustomResource}
    {controller : Controller} (hr : r ∈ c.controllerRecords controller) :
    r.GoesBy c.controllerName := by
  simp only [controllerRecords, List.mem_cons, List.not_mem_nil, or_false] at hr
  obtain rfl | rfl | rfl | rfl := hr
  · exact Record.goesBy_of_kind "ServiceAccount" rfl (by decide)
  · exact Record.goesBy_of_kind "ClusterRole" rfl (by decide)
  · exact Record.goesBy_of_kind "ClusterRoleBinding" rfl (by decide)
  · refine Record.goesBy_of_controller (.inl rfl) rfl ?_
    -- the labels laid over that for the name of the controller have other keys
    have hlabels : c.controllerPodLabels.get? Label.app = some c.controllerName := by
      simp only [controllerPodLabels, Assoc.get?_insertSorted]
      rfl
    change (c.controllerPodLabels.mapValues Value.text).get? Label.app = _
    rw [Assoc.get?_mapValues, hlabels]
    rfl

theorem CustomResource.exists_runsApplication (c : CustomResource) (controller : Controller) :
    ∃ r ∈ c.controllerRecords controller, r.RunsApplication := by
  have hlast : ∃ r, (c.controllerRecords controller).getLast? = some r ∧ r.kind = "Deployment" :=
    ⟨_, rfl, rfl⟩
  obtain ⟨r, hr, hkind⟩ := hlast
  exact ⟨r, List.mem_of_getLast? hr, .inl hkind⟩

/-! ### Applications in a group -/

namespace Definition

/-- The definition is an application, stateless or not. -/
def IsApplication : Definition → Prop
  | app _ | statefulApp _ => True
  | _ => False

theorem exists_workload {d : Definition} (hd : d.IsApplication) (h : d.records files = .ok rs) :
    ∃ w : Workload, w.info.name = d.name ∧ w.GeneratedTo files rs := by
  cases d with
  | app a => exact ⟨a.workload, rfl, .inl ⟨a, rfl, h⟩⟩
  | statefulApp a => exact ⟨a.workload, rfl, .inr ⟨a, rfl, h⟩⟩
  | _ => exact hd.elim

/-- The record of a group is one that a member generates, with the labels of the group. -/
def ComesFrom (files : FileTree) (info : Meta) (d : Definition) (r : Record) : Prop :=
  ∃ own, d.records files = .ok own ∧ ∃ x ∈ own, r = labelMember info x

theorem ComesFrom.goesBy {info : Meta} {d : Definition} (hd : d.IsApplication)
    (h : ComesFrom files info d r) : r.GoesBy d.name := by
  obtain ⟨own, hown, x, hx, rfl⟩ := h
  obtain ⟨w, hname, hw⟩ := exists_workload hd hown
  exact hname ▸ (w.goesBy_of_generatedTo hw x hx).of_extends (extends_labelMember info x)

/-- A group has no records but that of its namespace and those of its members. -/
theorem comesFrom_of_mem {info : Meta} {members : List Definition} {create : Bool}
    (h : (group info members create).records files = .ok rs) (hr : r ∈ rs) :
    r.kind = "Namespace" ∨ ∃ d ∈ members, ComesFrom files info d r := by
  obtain ⟨parts, hparts, rfl⟩ := records_group_eq_ok_iff.mp h
  obtain ⟨before, after, hsplit, -⟩ := Record.mem_distinct_iff.mp hr
  have hmem : r ∈ (namespaceRecords info create ++ parts.flatten).map (labelMember info) :=
    hsplit ▸ List.mem_append_right before List.mem_cons_self
  obtain ⟨x, hx, rfl⟩ := List.mem_map.mp hmem
  obtain hx | hx := List.mem_append.mp hx
  · refine .inl ((extends_labelMember info x).kind.trans ?_)
    cases create with
    | false => exact absurd hx List.not_mem_nil
    | true => exact List.mem_singleton.mp hx ▸ rfl
  · obtain ⟨part, hpart, hx⟩ := List.mem_flatten.mp hx
    obtain ⟨d, hd, hrecords⟩ := exists_of_mem_forall₂ hparts hpart
    exact .inr ⟨d, hd, part, hrecords, x, hx, rfl⟩

end Definition

end Rollout
