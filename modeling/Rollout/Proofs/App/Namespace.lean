import Rollout.Proofs.App.Nested
import Rollout.Proofs.App.Settings

/-!
# The namespace of an application

An application keeps all its records together in its namespace, except those of nested
definitions that were given a namespace of their own.

The short form of a route captures the namespace that the application has when it is called.
What it captures is the namespace of the application or the default one, and either becomes the
namespace of the application when its records are made. So it does not matter where in a chain
of calls the one for the namespace stands: with its routes settled, the application is the same.
-/

namespace Rollout

open Workload (adoptRecord)

variable {files : FileTree} {rs : List Record}

/-- All records live in a namespace, apart from those of nested definitions with a namespace of
their own, and no nested definition lacks its record. -/
structure LivesIn (files : FileTree) (ns : String) (nested : List Definition)
    (rs : List Record) : Prop where
  records : ∀ r ∈ rs, r.namespace? = some ns ∨ ∃ d ∈ nested, d.info.ns ≠ defaultNamespace ∧
    d.records files = .ok [r] ∧ r.namespace? = some d.info.ns
  nested : ∀ d ∈ nested, ∃ x, d.records files = .ok [x] ∧
    (if d.info.ns = defaultNamespace then x.setNamespace ns else x) ∈ rs

/-- This holds of the records of a workload itself and of all that is nested in it, when those
have been moved. -/
theorem Workload.Composed.livesIn {w : Workload} {own : List Record} {nested : List Definition}
    (h : w.Composed files own nested rs) : LivesIn files w.info.ns nested rs where
  records := by
    intro r hr
    obtain hr | ⟨d, hd, x, hx, rfl⟩ := (h.mem_iff r).mp hr
    · obtain ⟨kind, -, name, -, hdescribes⟩ := h.owns r hr
      exact .inl hdescribes.namespace?_eq
    · have hdescribes := h.describes hd hx
      rw [adoptRecord_of_describes (h.isNested d hd).namespaced hdescribes]
      split
      · exact .inl (Record.namespace?_setNamespace x w.info.ns)
      · rename_i hne
        exact .inr ⟨d, hd, hne, hx, hdescribes.namespace?_eq⟩
  nested := by
    intro d hd
    obtain ⟨x, hx⟩ := h.generates d hd
    refine ⟨x, hx, (h.mem_iff _).mpr (.inr ⟨d, hd, x, hx, ?_⟩)⟩
    exact (adoptRecord_of_describes (h.isNested d hd).namespaced (h.describes hd hx) _).symm

theorem App.livesIn {a : App} (h : a.records files = .ok rs) :
    LivesIn files a.info.ns a.nested rs := by
  obtain ⟨notes, h⟩ := composed h
  exact h.livesIn

theorem StatefulApp.livesIn {a : StatefulApp} (h : a.records files = .ok rs) :
    LivesIn files a.info.ns a.nested rs := by
  obtain ⟨notes, h⟩ := composed h
  exact h.livesIn

/-! ### The place of the call for the namespace -/

namespace Ingress

/-- The Ingress in a namespace, unless it was given one of its own. -/
def settle (ns : String) (i : Ingress) : Ingress :=
  if i.info.ns = defaultNamespace then i.mapInfo (·.withNamespace ns) else i

theorem records_withNamespace (i : Ingress) (ns : String) :
    (i.mapInfo (·.withNamespace ns)).records = i.records.map (·.setNamespace ns) :=
  rfl

/-- Adoption moves the record of an Ingress to the same place, settled or not. -/
theorem adopt_records_settle (ns : String) (i : Ingress) :
    (i.settle ns).records.map (adoptRecord ns) = i.records.map (adoptRecord ns) := by
  unfold settle
  split
  · rename_i hdefault
    have hscope : Kind.isClusterScoped "Ingress" = false := by decide
    have hnested : (Definition.ingress i).IsNested := trivial
    have hrecords : (Definition.ingress i).records .empty = .ok i.records := rfl
    obtain ⟨x, hx, hdescribes⟩ := hnested.describes hrecords
    have hthere := hdescribes.setNamespace ns
    have hmoved : adoptRecord ns x = x.setNamespace ns := by
      rw [Workload.adoptRecord_of_describes hscope hdescribes]
      exact if_pos hdefault
    have hagain : adoptRecord ns (x.setNamespace ns) = x.setNamespace ns := by
      rw [Workload.adoptRecord_of_describes hscope hthere, hthere.setNamespace_self, ite_self]
    rw [records_withNamespace, hx, List.map_singleton, List.map_singleton, List.map_singleton,
      hmoved, hagain]
  · rfl

theorem settle_settle (ns : String) (i : Ingress) : (i.settle ns).settle ns = i.settle ns := by
  by_cases hdefault : i.info.ns = defaultNamespace
  · have hsettle : i.settle ns = i.mapInfo (·.withNamespace ns) := if_pos hdefault
    rw [hsettle]
    exact ite_self (i.mapInfo (·.withNamespace ns))
  · have hsettle : i.settle ns = i := if_neg hdefault
    rw [hsettle, hsettle]

end Ingress

namespace App

/-- Put an application into a namespace. -/
def withNamespace (ns : String) (a : App) : App := a.mapInfo (·.withNamespace ns)

/-- The application in a namespace, and with it all routes that were given none of their own. -/
def settle (ns : String) (a : App) : App :=
  { a.withNamespace ns with ingresses := a.ingresses.map (Ingress.settle ns) }

variable {a : App} {ns : String}

theorem settle_settle (ns : String) (a : App) : (a.settle ns).settle ns = a.settle ns := by
  have hingresses : (a.settle ns).ingresses.map (Ingress.settle ns) = (a.settle ns).ingresses := by
    rw [settle, List.map_map]
    exact List.map_congr_left fun i _ => i.settle_settle ns
  rw [settle, hingresses]
  rfl

theorem routed_settle (a : App) (ns : String) (i : Ingress) :
    a.routed (i.settle ns) = (a.routed i).settle ns := by
  have hinfo : (a.routed i).info = i.info := rfl
  unfold Ingress.settle
  rw [hinfo]
  split <;> rfl

theorem records_settle (h : a.info.ns = ns) : (a.settle ns).records files = a.records files := by
  subst h
  have hgather : ∀ is : List Ingress, Definition.Gather files
      (is.map fun i => .ingress (a.routed i)) (is.flatMap fun i => (a.routed i).records) :=
    Definition.gather_flatMap fun _ => rfl
  have hadopt : ∀ is : List Ingress,
      a.workload.adopt (is.flatMap fun i => (a.routed i).records) =
        is.flatMap fun i => (a.routed i).records.map (adoptRecord a.info.ns) := by
    intro is
    rw [Workload.adopt_eq_map (hgather is) (List.forall_mem_map.mpr fun _ _ => trivial),
      List.map_flatMap]
    rfl
  have hroutes : a.workload.adopt ((a.ingresses.map (Ingress.settle a.info.ns)).flatMap
      fun i => (a.routed i).records) =
        a.workload.adopt (a.ingresses.flatMap fun i => (a.routed i).records) := by
    rw [hadopt, hadopt, List.flatMap_map]
    simp only [routed_settle, Ingress.adopt_records_settle]
  unfold records
  rw [← hroutes]
  rfl

/-- The calls that set up an application, but for the one that puts it into a namespace. -/
inductive IsCall : (App → App) → Prop where
  | label (key value : String) : IsCall (·.mapInfo (·.withLabel key value))
  | note (key value : String) : IsCall (·.mapInfo (·.withNote key value))
  /-- Whatever else is set in the workload has nothing to do with its metadata. -/
  | workload {f : Workload → Workload} (hf : ∀ w g, f (w.mapInfo g) = (f w).mapInfo g) :
    IsCall (·.mapWorkload f)
  | replicas (n : Nat) : IsCall (·.withReplicas n)
  | scaling (s : Scaling) : IsCall (·.withScaling s)
  | autoscale (low high : Nat) : IsCall (·.autoscale low high)
  | expose : IsCall (·.exposed)
  | serviceType (serviceType : ServiceType) : IsCall (·.withServiceType serviceType)
  | ingress (i : Ingress) : IsCall (·.addIngress i)
  | ingressHost (host : String) : IsCall (·.withIngressHost host)
  | job (j : Job) : IsCall (·.addJob j)
  | cronJob (j : CronJob) : IsCall (·.addCronJob j)
  | serviceAccount (x : ServiceAccount) : IsCall (·.withServiceAccount x)

/-- Every setting of an application is one of these calls or puts it into a namespace. -/
theorem IsSetting.isCall {f : App → App} (hf : IsSetting f) :
    (∃ ns, f = withNamespace ns) ∨ IsCall f := by
  cases hf with
  | workload hf =>
    cases hf with
    | info hf =>
      cases hf with
      | ns ns => exact .inl ⟨ns, rfl⟩
      | label key value => exact .inr (.label key value)
      | note key value => exact .inr (.note key value)
    | _ => exact .inr (.workload fun _ _ => rfl)
  | replicas => exact .inr (.replicas _)
  | scaling => exact .inr (.scaling _)
  | autoscale => exact .inr (.autoscale _ _)
  | expose => exact .inr .expose
  | serviceType serviceType => exact .inr (.serviceType serviceType)
  | ingress => exact .inr (.ingress _)
  | ingressHost host => exact .inr (.ingressHost host)
  | job => exact .inr (.job _)
  | cronJob => exact .inr (.cronJob _)
  | serviceAccount => exact .inr (.serviceAccount _)

theorem IsCall.ns_eq {f : App → App} (hf : IsCall f) (a : App) : (f a).info.ns = a.info.ns := by
  cases hf with
  | workload hf =>
    have hsame := hf a.workload fun _ => a.info
    exact congrArg (·.info.ns) hsame
  | _ => rfl

/-- The route to a host that an application gets when it is in a namespace. -/
def hostRoute (a : App) (ns host : String) : Ingress :=
  Ingress.withHost { info := { name := a.info.name, ns } } host

theorem settle_hostRoute {own host : String} (h : own = ns ∨ own = defaultNamespace) :
    (a.hostRoute own host).settle ns = a.hostRoute ns host := by
  obtain rfl | rfl := h
  · exact ite_self (a.hostRoute own host)
  · exact if_pos rfl

/-- A call makes the same of an application whether its routes are settled or not. -/
theorem IsCall.settle {f : App → App} (hf : IsCall f)
    (hns : a.info.ns = ns ∨ a.info.ns = defaultNamespace) :
    (f (a.settle ns)).settle ns = (f a).settle ns := by
  -- all calls but one for a route of its own keep settled routes settled
  have hcommutes : f (a.settle ns) = (f a).settle ns → (f (a.settle ns)).settle ns =
      (f a).settle ns := fun h => by rw [h, settle_settle]
  cases hf with
  | workload hf =>
    refine hcommutes ?_
    have hworkload := hf a.workload (·.withNamespace ns)
    simp only [App.settle, withNamespace, mapInfo, mapWorkload, hworkload]
  | ingress i =>
    have hingresses : ((a.settle ns).ingresses ++ [i]).map (Ingress.settle ns) =
        (a.ingresses ++ [i]).map (Ingress.settle ns) := by
      have hsettled := congrArg App.ingresses (a.settle_settle ns)
      rw [List.map_append, List.map_append]
      exact congrArg (· ++ _) hsettled
    exact congrArg (fun is => { a.withNamespace ns with ingresses := is }) hingresses
  | ingressHost host =>
    have hingresses : a.ingresses.map (Ingress.settle ns) ++ [a.hostRoute ns host] =
        (a.ingresses ++ [a.hostRoute a.info.ns host]).map (Ingress.settle ns) := by
      rw [List.map_append, List.map_singleton, settle_hostRoute hns]
    exact hcommutes (congrArg (fun is => { a.withNamespace ns with ingresses := is }) hingresses)
  | _ => exact hcommutes rfl

/-- One call after the other. -/
def run (calls : List (App → App)) (a : App) : App := calls.foldl (fun a f => f a) a

theorem run_append (before after : List (App → App)) (a : App) :
    a.run (before ++ after) = (a.run before).run after :=
  List.foldl_append

theorem ns_run {calls : List (App → App)} (hcalls : ∀ f ∈ calls, IsCall f) (a : App) :
    (a.run calls).info.ns = a.info.ns := by
  induction calls generalizing a with
  | nil => rfl
  | cons f calls ih =>
    obtain ⟨hf, hcalls⟩ := List.forall_mem_cons.mp hcalls
    exact (ih hcalls (f a)).trans (hf.ns_eq a)

theorem settle_run {calls : List (App → App)} (hcalls : ∀ f ∈ calls, IsCall f)
    (hns : a.info.ns = ns ∨ a.info.ns = defaultNamespace) :
    ((a.settle ns).run calls).settle ns = (a.run calls).settle ns := by
  induction calls generalizing a with
  | nil => exact a.settle_settle ns
  | cons f calls ih =>
    obtain ⟨hf, hcalls⟩ := List.forall_mem_cons.mp hcalls
    have hleft : (f (a.settle ns)).info.ns = ns := hf.ns_eq (a.settle ns)
    have hright : (f a).info.ns = ns ∨ (f a).info.ns = defaultNamespace := by
      rw [hf.ns_eq a]
      exact hns
    calc ((f (a.settle ns)).run calls).settle ns
      _ = (((f (a.settle ns)).settle ns).run calls).settle ns := (ih hcalls (.inl hleft)).symm
      _ = (((f a).settle ns).run calls).settle ns := by rw [hf.settle hns]
      _ = ((f a).run calls).settle ns := ih hcalls hright

/-- Wherever the call for the namespace stands in a chain, with its routes settled the
application is the one that the other calls set up. -/
theorem settle_run_withNamespace {before after : List (App → App)}
    (hcalls : ∀ f ∈ before ++ after, IsCall f) (hns : a.info.ns = defaultNamespace) :
    (a.run (before ++ withNamespace ns :: after)).settle ns =
      (a.run (before ++ after)).settle ns := by
  obtain ⟨hbefore, hafter⟩ := List.forall_mem_append.mp hcalls
  have hdefault : (a.run before).info.ns = defaultNamespace := (ns_run hbefore a).trans hns
  have hmoved : ((a.run before).withNamespace ns).info.ns = ns := rfl
  rw [run_append, run_append]
  calc (((a.run before).withNamespace ns).run after).settle ns
    _ = ((((a.run before).withNamespace ns).settle ns).run after).settle ns :=
      (settle_run hafter (.inl hmoved)).symm
    _ = (((a.run before).settle ns).run after).settle ns := rfl
    _ = ((a.run before).run after).settle ns := settle_run hafter (.inr hdefault)

theorem records_run_withNamespace {before after : List (App → App)}
    (hcalls : ∀ f ∈ before ++ after, IsCall f) (hns : a.info.ns = defaultNamespace) :
    (a.run (before ++ withNamespace ns :: after)).records files =
      ((a.run (before ++ after)).settle ns).records files := by
  have hafter := (List.forall_mem_append.mp hcalls).2
  have hplace : (a.run (before ++ withNamespace ns :: after)).info.ns = ns := by
    rw [run_append]
    exact ns_run hafter ((a.run before).withNamespace ns)
  rw [← records_settle hplace, settle_run_withNamespace hcalls hns]

/-- The records of an application live in its namespace, apart from those of nested definitions
that were given a namespace of their own, and the same holds of a stateful application. The
records do not depend on where in a chain of calls the one for the namespace stands. -/
theorem livesIn_and_records_moved (files : FileTree) :
    (∀ (a : App) (rs : List Record), a.records files = .ok rs →
      LivesIn files a.info.ns a.nested rs) ∧
    (∀ (a : StatefulApp) (rs : List Record), a.records files = .ok rs →
      LivesIn files a.info.ns a.nested rs) ∧
    ∀ (name ns : String) (before after before' after' : List (App → App)),
      (∀ f ∈ before ++ after, IsCall f) → before ++ after = before' ++ after' →
      ((named name).run (before ++ withNamespace ns :: after)).records files =
        ((named name).run (before' ++ withNamespace ns :: after')).records files := by
  refine ⟨fun a rs => a.livesIn, fun a rs => a.livesIn, ?_⟩
  intro name ns before after before' after' hcalls hsame
  have hdefault : (named name).info.ns = defaultNamespace := rfl
  have hcalls' : ∀ f ∈ before' ++ after', IsCall f := hsame ▸ hcalls
  rw [records_run_withNamespace hcalls hdefault, records_run_withNamespace hcalls' hdefault, hsame]

/-- An application that is put into a namespace after it got a route, and before it got a
ConfigMap from elsewhere. -/
theorem livesIn_and_records_moved_shop :
    let settings := (ConfigMap.named "settings").mapInfo (·.withNamespace "shared")
    let route : App → App := (·.withIngressHost "shop.example")
    let attach : App → App := (·.mapWorkload (·.addConfigMap settings))
    let a := (named "shop").run [route, withNamespace "web", attach]
    (∃ rs, a.records .empty = .ok rs ∧ LivesIn .empty "web" a.nested rs) ∧
      (∀ f ∈ [route, attach], IsCall f) ∧
      a.records .empty =
        ((named "shop").run [withNamespace "web", route, attach]).records .empty := by
  intro settings route attach a
  obtain ⟨hlives, -, hmoved⟩ := livesIn_and_records_moved .empty
  have hcalls : ∀ f ∈ [route, attach], IsCall f := by
    intro f hf
    obtain rfl | hf := List.mem_cons.mp hf
    · exact .ingressHost "shop.example"
    · obtain rfl := List.mem_singleton.mp hf
      exact .workload fun _ _ => rfl
  exact ⟨⟨_, rfl, hlives a _ rfl⟩, hcalls,
    hmoved "shop" "web" [route] [attach] [] [route, attach] hcalls rfl⟩

end App

end Rollout
