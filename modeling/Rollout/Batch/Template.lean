import Rollout.Duration
import Rollout.Meta
import Rollout.Record.Basic
import Rollout.Workload.Container

/-!
# What a job runs

The container and the limits of a job, whether it runs once or on a schedule.
-/

namespace Rollout

/-- When a failed container is started again. -/
inductive RestartPolicy where
  | onFailure
  | never
deriving DecidableEq

namespace RestartPolicy

def name : RestartPolicy → String
  | onFailure => "OnFailure"
  | never => "Never"

def codec : Codec RestartPolicy := .choice [onFailure, never] name

end RestartPolicy

/-- The container and the limits of a job. -/
structure JobTemplate where
  image : Option String := none
  command : List String := []
  args : List String := []
  env : Assoc String := []
  restartPolicy : RestartPolicy := .onFailure
  backoffLimit : Option Nat := none
  completions : Option Nat := none
  parallelism : Option Nat := none
  activeDeadline : Option Duration := none
  ttlAfterFinished : Option Duration := none
  requirements : Option Requirements := none
  serviceAccount : Option String := none
deriving DecidableEq

namespace JobTemplate

/-- The fields of a definition that make up its template. -/
def fields : Fields JobTemplate JobTemplate :=
  JobTemplate.mk <$> .optional "image" (·.image) .text
    <*> .items "command" (·.command) .text
    <*> .items "args" (·.args) .text
    <*> .orderedMap "env" (·.env) .text
    <*> .defaulted "restartPolicy" (·.restartPolicy) RestartPolicy.codec .onFailure
    <*> .optional "backoffLimit" (·.backoffLimit) .nat32
    <*> .optional "completions" (·.completions) .nat32
    <*> .optional "parallelism" (·.parallelism) .nat32
    <*> .optional "activeDeadline" (·.activeDeadline) Duration.codec
    <*> .optional "ttlAfterFinished" (·.ttlAfterFinished) Duration.codec
    <*> .optional "resources" (·.requirements) Requirements.codec
    <*> .optional "serviceAccount" (·.serviceAccount) .text

def withImage (t : JobTemplate) (image : String) : JobTemplate := { t with image := some image }

def withCommand (t : JobTemplate) (command : List String) : JobTemplate := { t with command }

def withArgs (t : JobTemplate) (args : List String) : JobTemplate := { t with args }

def withVariable (t : JobTemplate) (key value : String) : JobTemplate :=
  { t with env := t.env.insert key value }

/-- The image that runs where none is given. -/
def fallbackImage : String := "busybox:latest"

/-- The image to run. -/
def imageOrDefault (t : JobTemplate) : String := t.image.getD fallbackImage

/-- The only container of the pods. -/
def container (t : JobTemplate) (name : String) : Value :=
  .mapping <|
    [("name", .text name), ("image", .text t.imageOrDefault)] ++
      textsEntry "command" t.command ++ textsEntry "args" t.args ++ environmentEntry t.env ++
      optionEntry "resources" t.requirements Requirements.toValue

/-- What a job with a name runs, in pods with some labels. -/
def spec (t : JobTemplate) (name : String) (podLabels : Assoc String) : Value :=
  .mapping <|
    optionEntry "backoffLimit" t.backoffLimit .nat ++
      optionEntry "completions" t.completions .nat ++
      optionEntry "parallelism" t.parallelism .nat ++
      optionEntry "activeDeadlineSeconds" t.activeDeadline (fun d => .nat d.seconds) ++
      optionEntry "ttlSecondsAfterFinished" t.ttlAfterFinished (fun d => .nat d.seconds) ++
      [("template", .mapping
        [("metadata", .mapping [("labels", .textMap podLabels)]),
          ("spec", .mapping <|
            optionEntry "serviceAccountName" t.serviceAccount .text ++
              [("restartPolicy", .text t.restartPolicy.name),
                ("containers", .list [t.container name])])])]

def problems (t : JobTemplate) (what name : String) : List String :=
  (if t.image.isSome then []
    else [s!"{what} '{name}' has no image; " ++ fallbackImage ++ " will be used"]) ++
  match t.completions, t.parallelism with
  | some completions, some parallelism =>
    if parallelism > completions then
      [s!"{what} '{name}' runs {parallelism} pods in parallel for only {completions} completions"]
    else []
  | _, _ => []

end JobTemplate

end Rollout
