import Rollout.Codec.Basic

/-!
# Structures as mappings

A structure is described field by field, in the order of its declaration. The same
description writes the structure and reads it back. Fields are read in the order in
which they are given, so of two faulty fields the one given first is reported; a missing
field is reported after all faulty ones. Parts whose fields stand among those of the
structure itself are read after its own.

A structure without such parts may also be given as the list of its fields in the order
of declaration, where fields with a default may be left out at the end.
-/

namespace Rollout

/-- What is wrong with one of the fields of a structure. -/
inductive FieldFault where
  /-- The field at a place of the mapping cannot be read. -/
  | faulty (place : Nat) (error : DecodeError)
  /-- A field is missing. -/
  | missing (error : DecodeError)
  /-- A part whose fields stand among those of the structure cannot be read. -/
  | inPart (error : DecodeError)

namespace FieldFault

/-- The error itself. -/
def error : FieldFault → DecodeError
  | faulty _ e | missing e | inPart e => e

/-- Which of two faults is reported, the first being that of the field declared first. -/
def first : FieldFault → FieldFault → FieldFault
  | faulty i e, faulty j f => if j < i then faulty j f else faulty i e
  | faulty i e, _ => faulty i e
  | _, faulty j f => faulty j f
  | missing e, _ => missing e
  | _, missing f => missing f
  | inPart e, inPart _ => inPart e

end FieldFault

/-- What is wrong with a structure given as a list. -/
inductive ListFault where
  /-- An item cannot be read. -/
  | faulty (error : DecodeError)
  /-- The list ends before a field that has no default. -/
  | short

/-- The description of some fields of a structure `σ` from which an `α` is read. -/
structure Fields (σ α : Type) where
  /-- How many fields there are. -/
  count : Nat
  /-- What is expected of each field, those of parts included. -/
  shapes : List (String × Shape)
  /-- Whether there are parts among the fields. -/
  hasParts : Bool
  /-- The fields of a structure. -/
  write : σ → Assoc Value
  /-- Read the fields among the entries of a mapping. -/
  read : Source → Assoc Value → Except FieldFault α
  /-- Read the fields from the head of a list. -/
  readList : Source → List Value → Except ListFault (α × List Value)

namespace Fields

variable {σ τ α β : Type}

/-- No field. -/
def none (a : α) : Fields σ α := 
  ⟨0, [], false, fun _ => [], fun _ _ => .ok a, fun _ vs => .ok (a, vs)⟩

/-- Fields, and then further ones. -/
def both (f : Fields σ (α → β)) (x : Fields σ α) : Fields σ β where
  count := f.count + x.count
  shapes := f.shapes ++ x.shapes
  hasParts := f.hasParts || x.hasParts
  write s := f.write s ++ x.write s
  read src entries :=
    match f.read src entries, x.read src entries with
    | .ok g, .ok a => .ok (g a)
    | .error e, .error e' => .error (e.first e')
    | .error e, .ok _ => .error e
    | .ok _, .error e => .error e
  readList src items := do
    let (g, items) ← f.readList src items
    let (a, items) ← x.readList src items
    .ok (g a, items)

instance : Applicative (Fields σ) where
  pure := none
  seq f x := both f (x ())

/-- A field that is looked up by its key. `absent` is what it is if the mapping does not
give it, `last` what it is if a list ends before it, and `hidden` says when it is not
written. -/
def fieldWith (key : String) (get : σ → α) (c : Codec α) (absent last : Option α)
    (hidden : α → Bool) : Fields σ α where
  count := 1
  shapes := [(key, c.shape)]
  hasParts := false
  write s := if hidden (get s) then [] else [(key, c.encode (get s))]
  read src entries :=
    match entries.findIdx? (·.1 == key), entries.get? key with
    | some place, some v =>
      match c.decode src v with
      | .ok a => .ok a
      | .error e => .error (.faulty place e)
    | _, _ =>
      match absent with
      | some a => .ok a
      | Option.none => .error (.missing (.missingField key))
  readList src
    | [] =>
      match last with
      | some a => .ok (a, [])
      | Option.none => .error .short
    | v :: vs =>
      match c.decode src v with
      | .ok a => .ok (a, vs)
      | .error e => .error (.faulty e)

/-- A field that has to be given. -/
def required (key : String) (get : σ → α) (c : Codec α) : Fields σ α :=
  fieldWith key get c .none .none fun _ => false

/-- A field with a default. It is always written. -/
def defaulted (key : String) (get : σ → α) (c : Codec α) (default : α) : Fields σ α :=
  fieldWith key get c default default fun _ => false

/-- A field with a default that is not written where `hidden` says so. -/
def elided (key : String) (get : σ → α) (c : Codec α) (default : α) (hidden : α → Bool) :
    Fields σ α :=
  fieldWith key get c default default hidden

/-- A field that may be left out, also at the end of a list, and is then not written. -/
def optional (key : String) (get : σ → Option α) (c : Codec α) : Fields σ (Option α) :=
  elided key get (.option c) .none Option.isNone

/-- A field that may be left out of a mapping but not of a list. -/
def optionalInMapping (key : String) (get : σ → Option α) (c : Codec α) : Fields σ (Option α) :=
  fieldWith key get (.option c) (some .none) .none Option.isNone

/-- A list that may be left out if it is empty, and is then not written. -/
def items (key : String) (get : σ → List α) (c : Codec α) : Fields σ (List α) :=
  elided key get (.list c) [] List.isEmpty

/-- A sorted mapping that may be left out if it is empty, and is then not written. -/
def sortedMap (key : String) (get : σ → Assoc α) (c : Codec α) : Fields σ (Assoc α) :=
  elided key get (.sorted c) [] List.isEmpty

/-- An ordered mapping that may be left out if it is empty, and is then not written. -/
def orderedMap (key : String) (get : σ → Assoc α) (c : Codec α) : Fields σ (Assoc α) :=
  elided key get (.ordered c) [] List.isEmpty

/-- A truth value that is false if it is left out, and then not written. -/
def flag (key : String) (get : σ → Bool) : Fields σ Bool :=
  elided key get .bool false (!·)

/-- A part whose fields stand among those of the structure itself. -/
def part (get : σ → τ) (fields : Fields τ α) : Fields σ α where
  count := 0
  shapes := fields.shapes.map fun (key, _) => (key, .any)
  hasParts := true
  write s := fields.write (get s)
  read _ entries :=
    match fields.read .gathered entries with
    | .ok a => .ok a
    | .error e => .error (.inPart e.error)
  readList _ _ := .error .short

/-- Read the fields from a mapping. -/
def decode (fields : Fields σ α) (src : Source) (entries : Assoc Value) :
    Except DecodeError α :=
  (fields.read src entries).mapError FieldFault.error

end Fields

namespace Codec

variable {σ : Type}

/-- A structure with parts: it is given as a mapping. -/
def mapping (name : String) (fields : Fields σ σ) : Codec σ where
  encode s := .mapping (fields.write s)
  decode src
    | .mapping entries => fields.decode src entries
    | v => .error (.wrongType v s!"struct {name}")
  shape := .struct fields.shapes fields.hasParts

/-- A number of things in words. -/
def counted (n : Nat) (thing : String) : String :=
  if n = 1 then s!"{n} {thing}" else s!"{n} {thing}s"

/-- Read all fields of a structure from a list. -/
def decodeItems (name : String) (fields : Fields σ σ) (src : Source) (items : List Value) :
    Except DecodeError σ :=
  match fields.readList src items with
  | .ok (s, []) => .ok s
  | .ok (_, _ :: _) =>
    .error (.wrongLength items.length
      (match src with
      | .direct => "fewer elements in array"
      | .gathered => counted fields.count "element" ++ " in sequence"))
  | .error (.faulty e) => .error e
  | .error .short =>
    .error (.wrongLength items.length (s!"struct {name} with " ++ counted fields.count "element"))

/-- A structure without parts: it is given as a mapping or as the list of its fields. -/
def struct (name : String) (fields : Fields σ σ) : Codec σ where
  encode s := .mapping (fields.write s)
  decode src
    | .mapping entries => fields.decode src entries
    | .list items => decodeItems name fields src items
    | v => .error (.wrongType v s!"struct {name}")
  shape := .struct fields.shapes fields.hasParts

/-- A structure without parts that may have no other fields than its own. -/
def closed (name : String) (fields : Fields σ σ) : Codec σ :=
  { struct name fields with
    decode := fun src v =>
      match v with
      | .mapping entries =>
        let known := fields.shapes.map (·.1)
        let isOther (entry : String × Value) : Bool := !known.contains entry.1
        match entries.findIdx? isOther, entries.find? isOther, fields.read src entries with
        | some place, some (key, _), .error e =>
          .error (e.first (.faulty place (.unknownField key known))).error
        | _, some (key, _), _ => .error (.unknownField key known)
        | _, none, result => result.mapError FieldFault.error
      | v => (struct name fields).decode src v }

end Codec

end Rollout
