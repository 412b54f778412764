import Rollout.Value.Basic
import Rollout.Text.Split

/-!
# Paths into a value

A path is a list of keys, written with dots between them. Reading follows the keys
through mappings; writing creates the mappings that are missing and replaces whatever
else stands in the way.
-/

namespace Rollout.Value

/-- The value that a list of keys leads to. -/
def at? (v : Value) : List String → Option Value
  | [] => some v
  | key :: keys => (v.field? key).bind (·.at? keys)

/-- The keys of a path: what stands between its dots. -/
def pathKeys (path : String) : List String := Text.parts '.' path

/-- The value at a dotted path. -/
def get? (v : Value) (path : String) : Option Value := v.at? (pathKeys path)

/-- Write a value where a list of keys leads. -/
def putAt (v : Value) : List String → Value → Value
  | [], new => new
  | key :: keys, new =>
    let inner := (v.field? key).getD .empty
    .mapping ((v.entries).insert key (inner.putAt keys new))

/-- Write a value at a dotted path. There is no such place if a key is empty. -/
def set? (v : Value) (path : String) (new : Value) : Option Value :=
  let keys := pathKeys path
  if keys.any (·.isEmpty) then none else some (v.putAt keys new)

end Rollout.Value
