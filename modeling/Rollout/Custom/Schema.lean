import Rollout.Codec.Fields
import Rollout.Json.Printer

/-!
# Schemas of custom objects

The fields that objects of a custom kind have, and what is wrong with an object that
does not follow them.
-/

namespace Rollout

/-- The type of a field. -/
inductive PropertyType where
  | string
  | integer
  | number
  | boolean
  | object
  | array
deriving DecidableEq

namespace PropertyType

def name : PropertyType → String
  | string => "string"
  | integer => "integer"
  | number => "number"
  | boolean => "boolean"
  | object => "object"
  | array => "array"

def codec : Codec PropertyType :=
  .choice [string, integer, number, boolean, object, array] name

/-- Whether a value is of the type. A whole double is an integer. -/
def admits : PropertyType → Value → Bool
  | string, .text _ => true
  | integer, .int _ => true
  | integer, .double x => x.toInt?.isSome
  | number, .int _ => true
  | number, .double _ => true
  | boolean, .bool _ => true
  | object, .mapping _ => true
  | array, .list _ => true
  | _, _ => false

end PropertyType

/-- A field of custom objects. -/
structure SchemaProperty where
  propertyType : PropertyType
  description : Option String := none
  required : Bool := false
  default : Option Value := none
  allowed : List Value := []
  minimum : Option Double := none
  maximum : Option Double := none
  /-- The type of the items of a list. -/
  items : Option PropertyType := none

namespace SchemaProperty

def codec : Codec SchemaProperty :=
  .struct "SchemaProperty" <|
    SchemaProperty.mk <$> .required "type" (·.propertyType) PropertyType.codec
      <*> .optional "description" (·.description) .text
      <*> .defaulted "required" (·.required) .bool false
      <*> .optional "default" (·.default) .any
      <*> .items "allowed" (·.allowed) .any
      <*> .optional "minimum" (·.minimum) .double
      <*> .optional "maximum" (·.maximum) .double
      <*> .optional "items" (·.items) PropertyType.codec

/-- A field of a type without further rules. -/
def ofType (propertyType : PropertyType) : SchemaProperty := { propertyType }

def withRange (p : SchemaProperty) (minimum maximum : Double) : SchemaProperty :=
  { p with minimum := some minimum, maximum := some maximum }

/-- The type of the items, if the field is a list. -/
def itemType? (p : SchemaProperty) : Option PropertyType :=
  if p.propertyType = .array then some (p.items.getD .string) else none

/-- The entry of an optional part of a schema. -/
def part {α : Type} (key : String) (value : Option α) (f : α → Value) : Assoc Value :=
  (value.map fun a => (key, f a)).toList

/-- The schema of the field. -/
def toSchema (p : SchemaProperty) : Value :=
  .mapping <|
    [("type", .text p.propertyType.name)] ++ part "description" p.description .text ++
      part "default" p.default id ++
      (if p.allowed.isEmpty then [] else [("enum", .list p.allowed)]) ++
      part "minimum" p.minimum .double ++ part "maximum" p.maximum .double ++
      part "items" p.itemType? (fun t => .mapping [("type", .text t.name)]) ++
      if p.propertyType = .object then [("x-kubernetes-preserve-unknown-fields", .bool true)]
      else []

end SchemaProperty

namespace Schema

mutual

/-- Whether two values are equal, where an integer may equal a double. -/
def agrees : Value → Value → Bool
  | .null, .null => true
  | .bool a, .bool b => a == b
  | .text a, .text b => a == b
  | .int a, .int b => (Double.ofInt a).order == (Double.ofInt b).order
  | .int a, .double b => (Double.ofInt a).order == b.order
  | .double a, .int b => a.order == (Double.ofInt b).order
  | .double a, .double b => a.order == b.order
  | .list as, .list bs => agreeItems as bs
  | .mapping as, .mapping bs => agreeEntries as bs
  | _, _ => false

/-- `agrees` on lists of values. -/
def agreeItems : List Value → List Value → Bool
  | [], [] => true
  | a :: as, b :: bs => agrees a b && agreeItems as bs
  | _, _ => false

/-- `agrees` on the entries of mappings. -/
def agreeEntries : List (String × Value) → List (String × Value) → Bool
  | [], [] => true
  | (k, a) :: as, (l, b) :: bs => k == l && agrees a b && agreeEntries as bs
  | _, _ => false

end

/-- Whether a number is below a double, compared exactly. -/
def isBelow (v : Value) (bound : Double) : Bool :=
  match v with
  | .int n =>
    let scaled : Int := n * Double.denominator
    let units : Int := bound.units
    decide (scaled < if bound.negative then -units else units)
  | .double x => x.order < bound.order
  | _ => false

/-- Whether a number is above a double, compared exactly. -/
def isAbove (v : Value) (bound : Double) : Bool :=
  match v with
  | .int n =>
    let scaled : Int := n * Double.denominator
    let units : Int := bound.units
    decide (scaled > if bound.negative then -units else units)
  | .double x => bound.order < x.order
  | _ => false

/-- A violation of a schema: where, and what is wrong there. -/
structure Violation where
  path : List String
  message : String

/-- A key in a path, with its slashes and tildes escaped. -/
def pathStep (key : String) : String :=
  String.ofList <| key.toList.flatMap fun c =>
    if c = '~' then ['~', '0'] else if c = '/' then ['~', '1'] else [c]

/-- The text of a path. -/
def pathText (path : List String) : String :=
  if path.isEmpty then "(root)" else String.join (path.map fun step => "/" ++ pathStep step)

/-- The violation of a type. -/
def typeViolation (path : List String) (v : Value) (t : PropertyType) : List Violation :=
  if t.admits v then []
  else [⟨path, Json.text v ++ " is not of type " ++ Json.text (.text t.name)⟩]

/-- The violations of the rules for a field. -/
def propertyViolations (path : List String) (p : SchemaProperty) (v : Value) : List Violation :=
  typeViolation path v p.propertyType ++
    (if p.allowed.isEmpty || p.allowed.any (agrees · v) then []
      else [⟨path, Json.text v ++ " is not one of " ++ Json.text (.list p.allowed)⟩]) ++
    (match p.minimum with
      | some low =>
        if isBelow v low then
          [⟨path, Json.text v ++ " is less than the minimum of " ++ Json.text (.double low)⟩]
        else []
      | none => []) ++
    (match p.maximum with
      | some high =>
        if isAbove v high then
          [⟨path, Json.text v ++ " is greater than the maximum of " ++ Json.text (.double high)⟩]
        else []
      | none => []) ++
    match p.itemType? with
    | some t => (v.items.mapIdx fun i item => typeViolation (path ++ [toString i]) item t).flatten
    | none => []

/-- The violations of the schema of an object with some fields. -/
def violations (fields : Assoc SchemaProperty) (v : Value) : List Violation :=
  typeViolation [] v .object ++
    (fields.flatMap fun (key, p) =>
      match v.field? key with
      | some inner => propertyViolations [key] p inner
      | none => []) ++
    if v.isMapping then
      (fields.filter fun (key, p) => p.required && (v.field? key).isNone).map fun (key, _) =>
        ⟨[], Json.text (.text key) ++ " is a required property"⟩
    else []

/-- The schema of an object with some fields. -/
def toValue (fields : Assoc SchemaProperty) : Value :=
  let required := Assoc.keys (fields.filter fun (_, p) => p.required)
  .mapping <|
    [("type", .text "object"),
      ("properties", .mapping (fields.mapValues SchemaProperty.toSchema))] ++
      if required.isEmpty then [] else [("required", .texts required)]

end Schema

end Rollout
