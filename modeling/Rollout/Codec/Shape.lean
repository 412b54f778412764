/-!
# Expected shapes

What sort of value is expected at each place of a structure. Where a format lets a text
stand without quotes, an unquoted `5` is read as a text if one is expected and as a number
otherwise.
-/

namespace Rollout

/-- What sort of value is expected at a place. -/
inductive Shape where
  /-- Any value, or one that is written the same way whatever is expected. -/
  | any
  | text
  /-- A value or null. -/
  | option (inner : Shape)
  | list (item : Shape)
  | map (value : Shape)
  /-- A structure with its fields. In an open one the other keys count too. -/
  | struct (fields : List (String × Shape)) (isOpen : Bool)

namespace Shape

/-- What is expected of a value that is not null. -/
def core : Shape → Shape
  | .option s => s.core
  | s => s

/-- Whether null is expected too. -/
def isOption : Shape → Bool
  | .option _ => true
  | _ => false

/-- What is expected of the item of a list at a place. -/
def item (s : Shape) (place : Nat) : Shape :=
  match s with
  | .list item => item
  | .struct fields _ => (fields[place]?.map (·.2)).getD .any
  | _ => .any

/-- What is expected as the value of a key, if it counts. -/
def field? (s : Shape) (key : String) : Option Shape :=
  match s with
  | .map value => some value
  | .struct fields isOpen => (fields.lookup key).orElse fun _ => if isOpen then some .any else none
  | _ => some .any

/-- Whether a key may not be given twice. -/
def isField (s : Shape) (key : String) : Bool :=
  match s with
  | .struct fields _ => (fields.lookup key).isSome
  | _ => false

end Shape

end Rollout
