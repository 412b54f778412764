import Rollout.Decimal.Reader
import Rollout.Json.Reader
import Rollout.Value.Path

/-!
# Overrides

An override `ingress.enabled=true` writes a value at a dotted path. What stands right of
the first equals sign is a truth value, null, a number, or a list or mapping in JSON if
it reads as one, and a text otherwise. Of several overrides the last one wins.
-/

namespace Rollout

/-- Why a value cannot be overridden. -/
inductive OverrideError where
  /-- A key of the path is empty. -/
  | emptySegment (path : String)
  /-- There is no equals sign. -/
  | noValue (argument : String)
deriving DecidableEq

def OverrideError.message : OverrideError → String
  | emptySegment path => s!"Invalid value override '{path}': path segments must not be empty"
  | noValue argument => s!"Invalid value override '{argument}': expected key=value"

namespace Override

/-- Whether a text is the start of a list or of a mapping. -/
def opensCollection (raw : String) : Bool :=
  match raw.toList with
  | c :: _ => c = '[' || c = '\x7b'
  | [] => false

/-- The number that a text reads as. An integer that needs more than 64 bits is read as a
double. -/
def number? (raw : String) : Option Value :=
  match readInt? raw.toList with
  | some n =>
    if minInt64 ≤ n ∧ n ≤ maxInt64 then some (.int n)
    else (Double.read? raw.toList).map .double
  | none => (Double.read? raw.toList).map .double

/-- The value that a text stands for. -/
def scalar (raw : String) : Value :=
  match raw with
  | "true" => .bool true
  | "false" => .bool false
  | "null" => .null
  | _ =>
    match number? raw with
    | some n => n
    | none => ((if opensCollection raw then Json.parse? raw else none)).getD (.text raw)

/-- Write a value at a dotted path. -/
def set (v : Value) (path : String) (new : Value) : Except OverrideError Value :=
  match v.set? path new with
  | some v => .ok v
  | none => .error (.emptySegment path)

/-- Apply one override `path=value`. -/
def apply (v : Value) (argument : String) : Except OverrideError Value :=
  match Text.cutAt '=' argument with
  | some (path, raw) => set v path (scalar raw)
  | none => .error (.noValue argument)

/-- The values that a list of overrides gives, from none at all. -/
def values (arguments : List String) : Except OverrideError Value :=
  arguments.foldlM apply .empty

end Override

end Rollout
