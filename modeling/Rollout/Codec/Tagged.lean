import Rollout.Codec.Fields

/-!
# Tagged alternatives

A value of one of several forms is written as a mapping in which one field, the tag,
names the form and the others are the fields of that form. It may also be given as a
list that begins with the tag.
-/

namespace Rollout

/-- One form of a type: its name, how its fields are written, and how they are read. -/
structure Variant (α : Type) where
  name : String
  /-- The fields of a value of this form. -/
  write : α → Option (Assoc Value)
  /-- Read the form from the entries beside the tag. -/
  read : Assoc Value → Except DecodeError α
  /-- Read the form from the items after the tag, given the name of the whole type. -/
  readItems : String → List Value → Except DecodeError α

namespace Variant

variable {α τ : Type}

/-- A form with fields. -/
def ofFields (name inner : String) (view : α → Option τ) (fields : Fields τ α) : Variant α where
  name
  write a := (view a).map fields.write
  read entries := fields.decode .gathered entries
  readItems owner items :=
    match fields.readList .gathered items with
    | .ok (a, []) => .ok a
    | .ok (_, _ :: _) =>
      .error (.wrongLength items.length (Codec.counted fields.count "element" ++ " in sequence"))
    | .error (.faulty e) => .error e
    | .error .short =>
      .error (.wrongLength items.length
        (s!"struct variant {owner}::{inner} with " ++ Codec.counted fields.count "element"))

/-- A form without fields. -/
def alone (name : String) (a : α) (isThis : α → Bool) : Variant α where
  name
  write b := if isThis b then some [] else none
  read _ := .ok a
  readItems _ items :=
    if items.isEmpty then .ok a else .error (.wrongLength items.length "0 elements in sequence")

/-- The form that a tag names. Among gathered entries the tag may also be the place of
the form in the list of all forms. -/
def pick (variants : List (Variant α)) (src : Source) : Value → Except DecodeError (Variant α)
  | .text given =>
    match variants.find? (·.name == given) with
    | some v => .ok v
    | none => .error (.unknownVariant given (variants.map (·.name)))
  | .int n =>
    match src with
    | .direct => .error (.wrongType (.int n) "variant identifier")
    | .gathered =>
      if n < 0 then .error (.wrongType (.int n) "variant identifier")
      else
        match variants[n.toNat]? with
        | some v => .ok v
        | none => .error (.wrongValue (.int n) s!"variant index 0 <= i < {variants.length}")
  | v => .error (.wrongType v "variant identifier")

/-- Read a value of one of the forms from the entries of a mapping. -/
def readEntries (tag : String) (variants : List (Variant α)) (src : Source)
    (entries : Assoc Value) : Except DecodeError α :=
  match entries.get? tag with
  | none => .error (.missingField tag)
  | some v => do (← pick variants src v).read (entries.erase tag)

/-- The entries of a value: its tag and the fields of its form. -/
def writeEntries (tag : String) (variants : List (Variant α)) (a : α) : Assoc Value :=
  (variants.findSome? fun v => (v.write a).map ((tag, .text v.name) :: ·)).getD []

end Variant

namespace Codec

/-- A type with several forms, told apart by a tag. -/
def tagged {α : Type} (name tag : String) (variants : List (Variant α)) : Codec α where
  encode a := .mapping (Variant.writeEntries tag variants a)
  decode src
    | .mapping entries => Variant.readEntries tag variants src entries
    | .list [] => .error (.missingField tag)
    | .list (v :: rest) => do (← Variant.pick variants src v).readItems name rest
    | v => .error (.wrongType v s!"internally tagged enum {name}")

end Codec

/-- A part of one of several forms whose tag and fields stand among those of the structure
around it. -/
def Fields.taggedPart {σ α : Type} (get : σ → α) (tag : String) (variants : List (Variant α)) :
    Fields σ α where
  count := 0
  shapes := []
  hasParts := true
  write s := Variant.writeEntries tag variants (get s)
  read _ entries :=
    match Variant.readEntries tag variants .gathered entries with
    | .ok a => .ok a
    | .error e => .error (.inPart e)
  readList _ _ := .error .short

end Rollout
