import Rollout.App.Stateful
import Rollout.App.Stateless
import Rollout.Proofs.Access
import Rollout.Proofs.Batch
import Rollout.Proofs.Network
import Rollout.Proofs.Workload.Settings

/-!
# Applications are read back

An application that has been set up is read back with all that it carries: its workload, how
it is scaled, and the Ingresses, jobs and accounts attached to it.
-/

namespace Rollout

open Codec Fields

namespace HorizontalScaling

/-- Its bounds and targets are numbers of their type. -/
structure Fits (h : HorizontalScaling) : Prop where
  low : h.minReplicas < UInt32.size
  high : h.maxReplicas < UInt32.size
  cpu : ∀ n ∈ h.cpuUtilization, n < UInt32.size
  memory : ∀ n ∈ h.memoryUtilization, n < UInt32.size

theorem returns {s : HorizontalScaling} (h : s.Fits) : codec.Returns s :=
  returns_struct (by decide)
    (.seq (readsBack_optional nofun fun n hn => returns_nat32 (h.memory n hn)) <|
      .seq (readsBack_optional nofun fun n hn => returns_nat32 (h.cpu n hn)) <|
      .seq (readsBack_required (returns_nat32 h.high)) <|
      .map _ (readsBack_required (returns_nat32 h.low)))
    rfl

end HorizontalScaling

namespace Scaling

/-- All its numbers are of their type. -/
structure Fits (s : Scaling) : Prop where
  replicas : s.replicas < UInt32.size
  horizontal : ∀ h ∈ s.horizontal, h.Fits

theorem fits_default : Fits {} := ⟨by decide, nofun⟩

theorem fits_withBounds {s : Scaling} {low high : Nat} (h : s.Fits) (hlow : low < UInt32.size)
    (hhigh : high < UInt32.size) : (s.withBounds low high).Fits where
  replicas := Nat.max_lt.mpr ⟨h.replicas, hlow⟩
  horizontal := forall_mem_some ⟨hlow, hhigh, forall_mem_some (by decide), nofun⟩

theorem returns {s : Scaling} (h : s.Fits) : codec.Returns s :=
  returns_struct (by decide)
    (.seq (readsBack_optional nofun fun x hx => HorizontalScaling.returns (h.horizontal x hx)) <|
      .map _ (readsBack_defaulted (returns_nat32 h.replicas)))
    rfl

end Scaling

namespace App

/-- The settings of an application. -/
inductive IsSetting : (App → App) → Prop where
  | workload {f : Workload → Workload} (hf : Workload.IsSetting f) : IsSetting (·.mapWorkload f)
  | replicas {n : Nat} (h : n < UInt32.size) : IsSetting (·.withReplicas n)
  | scaling {s : Scaling} (h : s.Fits) : IsSetting (·.withScaling s)
  | autoscale {low high : Nat} (hl : low < UInt32.size) (hh : high < UInt32.size) :
    IsSetting (·.autoscale low high)
  | expose : IsSetting (·.exposed)
  | serviceType (serviceType : ServiceType) : IsSetting (·.withServiceType serviceType)
  | ingress {i : Ingress} (h : i.Built) : IsSetting (·.addIngress i)
  | ingressHost (host : String) : IsSetting (·.withIngressHost host)
  | job {j : Job} (h : j.Built) : IsSetting (·.addJob j)
  | cronJob {j : CronJob} (h : j.Built) : IsSetting (·.addCronJob j)
  | serviceAccount {x : ServiceAccount} (h : x.Built) : IsSetting (·.withServiceAccount x)

/-- An application that has been set up. -/
def Built : App → Prop := Reached (fun a => ∃ name, a = named name) IsSetting

/-- All that it carries has numbers of their types and sorted mappings. -/
structure Fits (a : App) : Prop where
  workload : a.workload.Fits
  scaling : a.scaling.Fits
  ingresses : ∀ i ∈ a.ingresses, i.Fits
  jobs : ∀ j ∈ a.jobs, j.Fits
  cronJobs : ∀ j ∈ a.cronJobs, j.Fits
  account : ∀ x ∈ a.managedServiceAccount, x.Fits

theorem fits_named (name : String) : (named name).Fits where
  workload := Workload.fits_named name
  scaling := Scaling.fits_default
  ingresses := List.forall_mem_nil _
  jobs := List.forall_mem_nil _
  cronJobs := List.forall_mem_nil _
  account := nofun

theorem Built.fits {a : App} (h : a.Built) : a.Fits := by
  refine h.holds ?_ fun f a hf ha => ?_
  · rintro _ ⟨name, rfl⟩
    exact fits_named name
  · cases hf with
    | workload hf => exact { ha with workload := hf.fits ha.workload }
    | replicas hn => exact { ha with scaling := { ha.scaling with replicas := hn } }
    | scaling hs => exact { ha with scaling := hs }
    | autoscale hl hh => exact { ha with scaling := Scaling.fits_withBounds ha.scaling hl hh }
    | expose => exact { ha with }
    | serviceType serviceType => exact { ha with }
    | ingress hi => exact { ha with ingresses := forall_mem_concat ha.ingresses hi.fits }
    | ingressHost host =>
      have hnew : Ingress.Fits { info := { name := a.info.name, ns := a.info.ns } } :=
        ⟨Meta.fits_of_empty a.info.name a.info.ns, nofun⟩
      have hi := hnew.route host "/" "" (by decide : 0 < UInt16.size)
      exact { ha with ingresses := forall_mem_concat ha.ingresses hi }
    | job hj => exact { ha with jobs := forall_mem_concat ha.jobs hj.fits }
    | cronJob hj => exact { ha with cronJobs := forall_mem_concat ha.cronJobs hj.fits }
    | @serviceAccount x hx =>
      have hw := (Workload.IsSetting.serviceAccountName x.info.name).fits ha.workload
      exact { ha with workload := hw, account := forall_mem_some hx.fits }

theorem returnsBehind {a : App} (h : a.Fits) : codec.ReturnsBehind "type" a := by
  have hworkload := Workload.readsBack_fields h.workload
  have hscaling := Scaling.returns h.scaling
  have hingresses : ∀ i ∈ a.ingresses, Ingress.codec.Returns i :=
    fun i hi => (Ingress.returnsBehind (h.ingresses i hi)).returns
  have hjobs : ∀ j ∈ a.jobs, Job.codec.Returns j :=
    fun j hj => (Job.returnsBehind (h.jobs j hj)).returns
  have hcronJobs : ∀ j ∈ a.cronJobs, CronJob.codec.Returns j :=
    fun j hj => (CronJob.returnsBehind (h.cronJobs j hj)).returns
  have haccount : ∀ x ∈ a.managedServiceAccount, ServiceAccount.codec.Returns x :=
    fun x hx => (ServiceAccount.returnsBehind (h.account x hx)).returns
  exact returnsBehind_mapping (by decide)
    (.seq (readsBack_optional nofun haccount) <|
      .seq (readsBack_items hcronJobs) <|
      .seq (readsBack_items hjobs) <|
      .seq (readsBack_items hingresses) <|
      .seq (readsBack_defaulted a.serviceType.returns) <|
      .seq (readsBack_defaulted (returns_bool _)) <|
      .seq (readsBack_defaulted hscaling) <|
      .map _ (readsBack_part hworkload))
    rfl

end App

theorem PodManagementPolicy.returns (p : PodManagementPolicy) :
    PodManagementPolicy.codec.Returns p := by
  cases p <;> exact returns_choice rfl

theorem Backup.returns {b : Backup} (h : b.retention < UInt32.size) : Backup.codec.Returns b :=
  returns_struct (by decide)
    (.seq (readsBack_defaulted (returns_nat32 h)) <|
      .seq readsBack_itemsText <|
      .seq readsBack_requiredText <|
      .map _ readsBack_requiredText)
    rfl

namespace StatefulApp

/-- The settings of a stateful application. -/
inductive IsSetting : (StatefulApp → StatefulApp) → Prop where
  | workload {f : Workload → Workload} (hf : Workload.IsSetting f) : IsSetting (·.mapWorkload f)
  | replicas {n : Nat} (h : n < UInt32.size) : IsSetting fun a => { a with replicas := n }
  | podManagementPolicy (podManagementPolicy : PodManagementPolicy) :
    IsSetting fun a => { a with podManagementPolicy }
  | backup {b : Backup} (h : b.retention < UInt32.size) :
    IsSetting fun a => { a with backup := some b }

/-- A stateful application that has been set up. -/
def Built : StatefulApp → Prop := Reached (fun a => ∃ name, a = named name) IsSetting

/-- All that it carries has numbers of their types and sorted mappings. -/
structure Fits (a : StatefulApp) : Prop where
  workload : a.workload.Fits
  replicas : a.replicas < UInt32.size
  backup : ∀ b ∈ a.backup, b.retention < UInt32.size

theorem Built.fits {a : StatefulApp} (h : a.Built) : a.Fits := by
  refine h.holds ?_ fun f a hf ha => ?_
  · rintro _ ⟨name, rfl⟩
    exact ⟨Workload.fits_named name, (by decide : 1 < UInt32.size), nofun⟩
  · cases hf with
    | workload hf => exact { ha with workload := hf.fits ha.workload }
    | replicas hn => exact { ha with replicas := hn }
    | podManagementPolicy policy => exact { ha with }
    | backup hb => exact { ha with backup := forall_mem_some hb }

theorem returnsBehind {a : StatefulApp} (h : a.Fits) : codec.ReturnsBehind "type" a :=
  returnsBehind_mapping (by decide)
    (.seq (readsBack_optional nofun fun b hb => Backup.returns (h.backup b hb)) <|
      .seq (readsBack_defaulted a.podManagementPolicy.returns) <|
      .seq (readsBack_defaulted (returns_nat32 h.replicas)) <|
      .map _ (readsBack_part (Workload.readsBack_fields h.workload)))
    rfl

end StatefulApp

end Rollout
