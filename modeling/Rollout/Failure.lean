import Rollout.Chart.Version
import Rollout.Definition.Codec
import Rollout.Override

/-!
# Failures

Everything for which an operation on definitions or on their renderings can fail, each
cause with its message.
-/

namespace Rollout

/-- Why an operation failed. -/
inductive Failure where
  /-- The data of a ConfigMap or Secret cannot be read. -/
  | source (error : SourceError)
  /-- A value is no definition. -/
  | definition (error : DefinitionError)
  /-- A name is that of no output format. -/
  | unknownFormat (given : String)
  /-- A name is that of no concurrency policy. -/
  | unknownPolicy (given : String)
  | override (error : OverrideError)
  /-- A text is not well-formed YAML, or not of the expected shape. -/
  | yaml
  /-- A text is not well-formed JSON. -/
  | json
  /-- A format makes nothing of a definition. -/
  | nothingToRender (typeName name : String) (format : Format)
  /-- A text is no version of a chart. -/
  | chartVersion (given : String) (error : VersionError)
  /-- A file cannot be written. -/
  | unwritable (path : String) (fault : FileFault)
  /-- A path cannot stand in an archive. -/
  | unarchivable (path : String)
deriving Inhabited

namespace Failure

def message : Failure → String
  | source error => error.message
  | definition error => error.message
  | unknownFormat given =>
    let known := ", ".intercalate (Format.all.map Format.name)
    s!"Invalid value for format: unknown output format '{given.toLower}' " ++
      s!"(expected one of: {known})"
  | unknownPolicy given =>
    let known := ", ".intercalate (ConcurrencyPolicy.all.map ConcurrencyPolicy.name)
    s!"Invalid value for concurrencyPolicy: '{given.toLower}' is not one of {known}"
  | override error => error.message
  | yaml => "Failed to parse YAML"
  | json => "Failed to parse JSON"
  | nothingToRender typeName name format =>
    s!"{typeName} '{name}' has nothing to render as {format.name}"
  | chartVersion given error => s!"Invalid chart version '{given}': " ++ error.message
  | unwritable path fault => s!"Failed to write {path}: " ++ fault.message
  | unarchivable path => s!"IO error: {path} cannot stand in an archive"

end Failure

/-- The format that a text names. -/
def Format.ofName (given : String) : Except Failure Format :=
  match parse? given with
  | some f => .ok f
  | none => .error (.unknownFormat given)

/-- The concurrency policy that a text names. -/
def ConcurrencyPolicy.ofName (given : String) : Except Failure ConcurrencyPolicy :=
  match parse? given with
  | some p => .ok p
  | none => .error (.unknownPolicy given)

end Rollout
