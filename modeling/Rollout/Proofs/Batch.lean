import Rollout.Batch.Job
import Rollout.Proofs.Duration
import Rollout.Proofs.Workload.Parts

/-!
# Jobs are read back

Jobs and CronJobs that have been set up are read back from what is written for them. Their
deadlines are written as texts, from which the same durations are read as long as their
seconds fit 64 bits.
-/

namespace Rollout

open Codec Fields

theorem Duration.returns {d : Duration} (h : d.seconds < UInt64.size) :
    Duration.codec.Returns d := by
  intro src
  simp only [codec, parse?_text h]

theorem RestartPolicy.returns (p : RestartPolicy) : RestartPolicy.codec.Returns p := by
  cases p <;> exact returns_choice rfl

theorem ConcurrencyPolicy.returns (p : ConcurrencyPolicy) :
    ConcurrencyPolicy.codec.Returns p := by
  cases p <;> exact returns_choice rfl

namespace JobTemplate

/-- The settings of what a job runs. -/
inductive IsSetting : (JobTemplate → JobTemplate) → Prop where
  | image (image : String) : IsSetting (·.withImage image)
  | command (command : List String) : IsSetting (·.withCommand command)
  | args (args : List String) : IsSetting (·.withArgs args)
  | variable (key value : String) : IsSetting (·.withVariable key value)
  | restartPolicy (restartPolicy : RestartPolicy) : IsSetting fun t => { t with restartPolicy }
  | backoffLimit {n : Nat} (h : n < UInt32.size) :
    IsSetting fun t => { t with backoffLimit := some n }
  | completions {n : Nat} (h : n < UInt32.size) :
    IsSetting fun t => { t with completions := some n }
  | parallelism {n : Nat} (h : n < UInt32.size) :
    IsSetting fun t => { t with parallelism := some n }
  | activeDeadline {d : Duration} (h : d.seconds < UInt64.size) :
    IsSetting fun t => { t with activeDeadline := some d }
  | ttlAfterFinished {d : Duration} (h : d.seconds < UInt64.size) :
    IsSetting fun t => { t with ttlAfterFinished := some d }
  | requirements (r : Requirements) : IsSetting fun t => { t with requirements := some r }
  | serviceAccount (name : String) : IsSetting fun t => { t with serviceAccount := some name }

/-- All numbers and durations are those of their types. -/
structure Fits (t : JobTemplate) : Prop where
  backoffLimit : ∀ n ∈ t.backoffLimit, n < UInt32.size
  completions : ∀ n ∈ t.completions, n < UInt32.size
  parallelism : ∀ n ∈ t.parallelism, n < UInt32.size
  activeDeadline : ∀ d ∈ t.activeDeadline, d.seconds < UInt64.size
  ttlAfterFinished : ∀ d ∈ t.ttlAfterFinished, d.seconds < UInt64.size

theorem fits_empty : Fits {} := ⟨nofun, nofun, nofun, nofun, nofun⟩

theorem IsSetting.fits {f : JobTemplate → JobTemplate} {t : JobTemplate} (hf : IsSetting f)
    (h : t.Fits) : (f t).Fits := by
  cases hf with
  | backoffLimit hn => exact { h with backoffLimit := forall_mem_some hn }
  | completions hn => exact { h with completions := forall_mem_some hn }
  | parallelism hn => exact { h with parallelism := forall_mem_some hn }
  | activeDeadline hd => exact { h with activeDeadline := forall_mem_some hd }
  | ttlAfterFinished hd => exact { h with ttlAfterFinished := forall_mem_some hd }
  | _ => exact { h with }

/-- The keys of the fields of what a job runs. -/
def keys : List String :=
  ["image", "command", "args", "env", "restartPolicy", "backoffLimit", "completions",
    "parallelism", "activeDeadline", "ttlAfterFinished", "resources", "serviceAccount"]

theorem readsBack_fields {t : JobTemplate} (h : t.Fits) : fields.ReadsBack keys t t := by
  have hbackoff : ∀ n ∈ t.backoffLimit, nat32.Returns n := fun n hn =>
    returns_nat32 (h.backoffLimit n hn)
  have hcompletions : ∀ n ∈ t.completions, nat32.Returns n := fun n hn =>
    returns_nat32 (h.completions n hn)
  have hparallelism : ∀ n ∈ t.parallelism, nat32.Returns n := fun n hn =>
    returns_nat32 (h.parallelism n hn)
  have hdeadline : ∀ d ∈ t.activeDeadline, Duration.codec.Returns d := fun d hd =>
    Duration.returns (h.activeDeadline d hd)
  have httl : ∀ d ∈ t.ttlAfterFinished, Duration.codec.Returns d := fun d hd =>
    Duration.returns (h.ttlAfterFinished d hd)
  exact .congr
    (.seq readsBack_optionalText <|
      .seq (readsBack_optional nofun fun r _ => r.returns) <|
      .seq (readsBack_optional nofun httl) <|
      .seq (readsBack_optional nofun hdeadline) <|
      .seq (readsBack_optional nofun hparallelism) <|
      .seq (readsBack_optional nofun hcompletions) <|
      .seq (readsBack_optional nofun hbackoff) <|
      .seq (readsBack_defaulted t.restartPolicy.returns) <|
      .seq readsBack_orderedText <|
      .seq readsBack_itemsText <|
      .seq readsBack_itemsText <|
      .map _ readsBack_optionalText)
    rfl rfl

end JobTemplate

namespace Job

/-- The settings of a Job. -/
inductive IsSetting : (Job → Job) → Prop where
  | info {f : Meta → Meta} (hf : Meta.IsSetting f) : IsSetting (·.mapInfo f)
  | template {f : JobTemplate → JobTemplate} (hf : JobTemplate.IsSetting f) :
    IsSetting (·.mapTemplate f)

/-- A Job that has been set up. -/
def Built : Job → Prop := Reached (fun j => ∃ name, j = named name) IsSetting

/-- Its metadata are sorted and its numbers are those of their types. -/
structure Fits (j : Job) : Prop where
  info : j.info.Fits
  template : j.template.Fits

theorem Built.fits {j : Job} (h : j.Built) : j.Fits := by
  refine h.holds ?_ fun f j hf hj => ?_
  · rintro _ ⟨name, rfl⟩
    exact ⟨Meta.fits_of_empty name defaultNamespace, JobTemplate.fits_empty⟩
  · cases hf with
    | info hf => exact { hj with info := hf.fits hj.info }
    | template hf => exact { hj with template := hf.fits hj.template }

theorem returnsBehind {j : Job} (h : j.Fits) : codec.ReturnsBehind "type" j :=
  returnsBehind_mapping (by decide)
    (.seq (readsBack_part (JobTemplate.readsBack_fields h.template)) <|
      .map _ (readsBack_part (Meta.readsBack_fields h.info)))
    rfl

end Job

namespace CronJob

/-- The settings of a CronJob. -/
inductive IsSetting : (CronJob → CronJob) → Prop where
  | info {f : Meta → Meta} (hf : Meta.IsSetting f) : IsSetting (·.mapInfo f)
  | template {f : JobTemplate → JobTemplate} (hf : JobTemplate.IsSetting f) :
    IsSetting (·.mapTemplate f)
  | schedule (schedule : String) : IsSetting fun j => { j with schedule }
  | concurrencyPolicy (concurrencyPolicy : ConcurrencyPolicy) :
    IsSetting fun j => { j with concurrencyPolicy }
  | suspend (suspend : Bool) : IsSetting fun j => { j with suspend }
  | historyLimits {successful failed : Nat} (hs : successful < UInt32.size)
    (hf : failed < UInt32.size) : IsSetting (·.withHistoryLimits successful failed)
  | startingDeadline {d : Duration} (h : d.seconds < UInt64.size) :
    IsSetting fun j => { j with startingDeadline := some d }

/-- A CronJob that has been set up. -/
def Built : CronJob → Prop := Reached (fun j => ∃ name schedule, j = named name schedule) IsSetting

/-- Its metadata are sorted, and its numbers and durations are those of their types. -/
structure Fits (j : CronJob) : Prop where
  info : j.info.Fits
  successful : ∀ n ∈ j.successfulJobsHistoryLimit, n < UInt32.size
  failed : ∀ n ∈ j.failedJobsHistoryLimit, n < UInt32.size
  startingDeadline : ∀ d ∈ j.startingDeadline, d.seconds < UInt64.size
  template : j.template.Fits

theorem Built.fits {j : CronJob} (h : j.Built) : j.Fits := by
  refine h.holds ?_ fun f j hf hj => ?_
  · rintro _ ⟨name, schedule, rfl⟩
    exact ⟨Meta.fits_of_empty name defaultNamespace, nofun, nofun, nofun, JobTemplate.fits_empty⟩
  · cases hf with
    | info hf => exact { hj with info := hf.fits hj.info }
    | template hf => exact { hj with template := hf.fits hj.template }
    | historyLimits hs hf =>
      exact { hj with successful := forall_mem_some hs, failed := forall_mem_some hf }
    | startingDeadline hd => exact { hj with startingDeadline := forall_mem_some hd }
    | _ => exact { hj with }

theorem returnsBehind {j : CronJob} (h : j.Fits) : codec.ReturnsBehind "type" j := by
  have hinfo := Meta.readsBack_fields h.info
  have htemplate := JobTemplate.readsBack_fields h.template
  have hdeadline : ∀ d ∈ j.startingDeadline, Duration.codec.Returns d := fun d hd =>
    Duration.returns (h.startingDeadline d hd)
  have hfailed : ∀ n ∈ j.failedJobsHistoryLimit, nat32.Returns n := fun n hn =>
    returns_nat32 (h.failed n hn)
  have hsuccessful : ∀ n ∈ j.successfulJobsHistoryLimit, nat32.Returns n := fun n hn =>
    returns_nat32 (h.successful n hn)
  exact returnsBehind_mapping (by decide)
    (.seq (readsBack_part htemplate) <|
      .seq (readsBack_optional nofun hdeadline) <|
      .seq (readsBack_optional nofun hfailed) <|
      .seq (readsBack_optional nofun hsuccessful) <|
      .seq (readsBack_defaulted (returns_bool _)) <|
      .seq (readsBack_defaulted j.concurrencyPolicy.returns) <|
      .seq readsBack_requiredText <|
      .map _ (readsBack_part hinfo))
    rfl

end CronJob

end Rollout
