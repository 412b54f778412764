import Rollout.Batch.Template
import Rollout.Name

/-!
# Jobs

A Job runs once. A CronJob runs whenever its schedule says so.
-/

namespace Rollout

/-- A job that runs once. -/
structure Job where
  info : Meta
  template : JobTemplate := {}
deriving DecidableEq

namespace Job

/-- A job without settings. -/
def named (name : String) : Job := { info := { name } }

def codec : Codec Job :=
  .mapping "Job" <|
    Job.mk <$> .part (·.info) Meta.fields <*> .part (·.template) JobTemplate.fields

def mapInfo (j : Job) (f : Meta → Meta) : Job := { j with info := f j.info }

def mapTemplate (j : Job) (f : JobTemplate → JobTemplate) : Job :=
  { j with template := f j.template }

def records (j : Job) : List Record :=
  let labels := j.info.allLabels.insertSorted "job-name" j.info.name
  [⟨[("apiVersion", .text "batch/v1"), ("kind", .text "Job"), ("metadata", j.info.toValue true),
    ("spec", j.template.spec j.info.name labels)]⟩]

def problems (j : Job) : List String :=
  j.info.problems "Job" ++ j.template.problems "Job" j.info.name

end Job

/-- What happens when a run is still active at the time of the next. -/
inductive ConcurrencyPolicy where
  | allow
  | forbid
  | replace
deriving DecidableEq

namespace ConcurrencyPolicy

def name : ConcurrencyPolicy → String
  | allow => "Allow"
  | forbid => "Forbid"
  | replace => "Replace"

def all : List ConcurrencyPolicy := [allow, forbid, replace]

def codec : Codec ConcurrencyPolicy := .choice all name

/-- The policy that a text names, whatever the case of its letters. -/
def parse? (s : String) : Option ConcurrencyPolicy :=
  all.find? fun p => p.name.toLower == s.toLower

end ConcurrencyPolicy

/-- A job that runs on a schedule. -/
structure CronJob where
  info : Meta
  schedule : String
  concurrencyPolicy : ConcurrencyPolicy := .allow
  suspend : Bool := false
  successfulJobsHistoryLimit : Option Nat := none
  failedJobsHistoryLimit : Option Nat := none
  startingDeadline : Option Duration := none
  template : JobTemplate := {}
deriving DecidableEq

namespace CronJob

/-- A job with a schedule and no further settings. -/
def named (name schedule : String) : CronJob := { info := { name }, schedule }

def codec : Codec CronJob :=
  .mapping "CronJob" <|
    CronJob.mk <$> .part (·.info) Meta.fields
      <*> .required "schedule" (·.schedule) .text
      <*> .defaulted "concurrencyPolicy" (·.concurrencyPolicy) ConcurrencyPolicy.codec .allow
      <*> .defaulted "suspend" (·.suspend) .bool false
      <*> .optional "successfulJobsHistoryLimit" (·.successfulJobsHistoryLimit) .nat32
      <*> .optional "failedJobsHistoryLimit" (·.failedJobsHistoryLimit) .nat32
      <*> .optional "startingDeadline" (·.startingDeadline) Duration.codec
      <*> .part (·.template) JobTemplate.fields

def mapInfo (j : CronJob) (f : Meta → Meta) : CronJob := { j with info := f j.info }

def mapTemplate (j : CronJob) (f : JobTemplate → JobTemplate) : CronJob :=
  { j with template := f j.template }

/-- Keep some successful and some failed runs. -/
def withHistoryLimits (j : CronJob) (successful failed : Nat) : CronJob :=
  { j with
    successfulJobsHistoryLimit := some successful
    failedJobsHistoryLimit := some failed }

/-- The form of the schedule with five fields, if it has one. -/
def normalizedSchedule? (j : CronJob) : Option String := Schedule.normalize? j.schedule

def records (j : CronJob) : List Record :=
  let labels := j.info.allLabels.insertSorted "cronjob-name" j.info.name
  [⟨[("apiVersion", .text "batch/v1"), ("kind", .text "CronJob"),
    ("metadata", j.info.toValue true),
    ("spec", .mapping <|
      [("schedule", .text (j.normalizedSchedule?.getD (Text.trim j.schedule))),
        ("concurrencyPolicy", .text j.concurrencyPolicy.name)] ++
        (if j.suspend then [("suspend", .bool true)] else []) ++
        optionEntry "successfulJobsHistoryLimit" j.successfulJobsHistoryLimit .nat ++
        optionEntry "failedJobsHistoryLimit" j.failedJobsHistoryLimit .nat ++
        optionEntry "startingDeadlineSeconds" j.startingDeadline (fun d => .nat d.seconds) ++
        [("jobTemplate", .mapping [("spec", j.template.spec j.info.name labels)])])]⟩]

/-- The longest name from which names of jobs can be made, in bytes. -/
def maxNameLength : Nat := 52

def problems (j : CronJob) : List String :=
  let name := j.info.name
  j.info.problems "CronJob" ++
    (if Text.byteLength name > maxNameLength then
      [s!"CronJob '{name}' name exceeds {maxNameLength} characters; " ++
        "generated Job names will be truncated"]
    else []) ++
    (if j.normalizedSchedule?.isSome then []
      else [s!"CronJob '{name}' has invalid schedule '{j.schedule}'"]) ++
    j.template.problems "CronJob" name

end CronJob

end Rollout
