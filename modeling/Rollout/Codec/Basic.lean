import Rollout.Codec.Shape
import Rollout.Decimal.Style
import Rollout.Text.Basic
import Rollout.Value.Basic

/-!
# Codecs

A codec says how the values of a type are written as a tree of scalars, lists and
mappings, and how such a tree is read.
-/

/-!
### Why a value cannot be read

The causes for which a value does not describe what it should, each with its message.
-/

namespace Rollout

/-- Why a value cannot be read as what it should describe. -/
inductive DecodeError where
  /-- A field without a default is not there. -/
  | missingField (field : String)
  /-- A mapping has a field that it may not have. -/
  | unknownField (given : String) (known : List String)
  /-- A name is none of the names to choose from. -/
  | unknownVariant (given : String) (known : List String)
  /-- The value is of another sort than expected. -/
  | wrongType (found : Value) (expected : String)
  /-- The value is of the right sort and still not allowed. -/
  | wrongValue (found : Value) (expected : String)
  /-- A list has the wrong number of items. -/
  | wrongLength (found : Nat) (expected : String)
deriving Inhabited

namespace DecodeError

/-- The description of a value in a message. -/
def describe : Value → String
  | .null => "null"
  | .bool b => s!"boolean \x60{b}\x60"
  | .int n => s!"integer \x60{n}\x60"
  | .double x => s!"floating point \x60{NumberStyle.json.text x}\x60"
  | .text s => s!"string {Text.quoted s}"
  | .list _ => "sequence"
  | .mapping _ => "map"

/-- The names to choose from, in a message. -/
def choices (known : List String) : String :=
  match known with
  | [a] => s!"expected \x60{a}\x60"
  | [a, b] => s!"expected \x60{a}\x60 or \x60{b}\x60"
  | names => "expected one of " ++ ", ".intercalate (names.map fun n => s!"\x60{n}\x60")

/-- The message of an error. -/
def message : DecodeError → String
  | missingField field => s!"missing field \x60{field}\x60"
  | unknownField given known =>
    s!"unknown field \x60{given}\x60, " ++
      if known.isEmpty then "there are no fields" else choices known
  | unknownVariant given known =>
    s!"unknown variant \x60{given}\x60, " ++
      if known.isEmpty then "there are no variants" else choices known
  | wrongType found expected => s!"invalid type: {describe found}, expected {expected}"
  | wrongValue found expected => s!"invalid value: {describe found}, expected {expected}"
  | wrongLength found expected => s!"invalid length {found}, expected {expected}"

end DecodeError

end Rollout

/-! ### Writing and reading -/

namespace Rollout

/-- Where a value is read from: directly from its place in a definition, or from the
entries that a structure has gathered for one of its parts. Only the wording of some
errors, and how a tag may be given, depend on it. -/
inductive Source where
  | direct
  | gathered
deriving DecidableEq

/-- A way to write and to read the values of a type. -/
structure Codec (α : Type) where
  /-- Write a value of the type. -/
  encode : α → Value
  /-- Read a value of the type. -/
  decode : Source → Value → Except DecodeError α
  /-- What sort of value is read. -/
  shape : Shape := .any

namespace Codec

variable {α β : Type}

/-- Texts. -/
def text : Codec String where
  encode := .text
  decode _
    | .text s => .ok s
    | v => .error (.wrongType v "a string")
  shape := .text

/-- Truth values. -/
def bool : Codec Bool where
  encode := .bool
  decode _
    | .bool b => .ok b
    | v => .error (.wrongType v "a boolean")

/-- Integers between two bounds, under the name of their type. -/
def intIn (low high : Int) (name : String) : Codec Int where
  encode := .int
  decode _
    | .int n => if low ≤ n ∧ n ≤ high then .ok n else .error (.wrongValue (.int n) name)
    | v => .error (.wrongType v name)

/-- Natural numbers up to a bound, under the name of their type. -/
def natTo (high : Nat) (name : String) : Codec Nat where
  encode := .nat
  decode _
    | .int n =>
      if 0 ≤ n ∧ n ≤ high then .ok n.toNat else .error (.wrongValue (.int n) name)
    | v => .error (.wrongType v name)

/-- Natural numbers of eight bits. -/
def nat8 : Codec Nat := natTo (UInt8.size - 1) "u8"

/-- Natural numbers of sixteen bits. -/
def nat16 : Codec Nat := natTo (UInt16.size - 1) "u16"

/-- Natural numbers of 32 bits. -/
def nat32 : Codec Nat := natTo (UInt32.size - 1) "u32"

/-- Integers of 32 bits. -/
def int32 : Codec Int := intIn (-2147483648) 2147483647 "i32"

/-- Integers of 64 bits. -/
def int64 : Codec Int := intIn (-9223372036854775808) 9223372036854775807 "i64"

/-- Doubles. An integer is read as the nearest double. -/
def double : Codec Double where
  encode := .double
  decode _
    | .double x => .ok x
    | .int n => .ok (Double.ofInt n)
    | v => .error (.wrongType v "f64")

/-- Any value. -/
def any : Codec Value where
  encode := id
  decode _ v := .ok v

/-- A value or null. -/
def option (c : Codec α) : Codec (Option α) where
  encode
    | some a => c.encode a
    | none => .null
  decode src
    | .null => .ok none
    | v => (c.decode src v).map some
  shape := .option c.shape

/-- Lists of values. -/
def list (c : Codec α) : Codec (List α) where
  encode as := .list (as.map c.encode)
  decode src
    | .list items => items.mapM (c.decode src)
    | v => .error (.wrongType v "a sequence")
  shape := .list c.shape

/-- Read the entries of a mapping one after the other. -/
def decodeEntries (c : Codec α) (src : Source) (entries : Assoc Value) :
    Except DecodeError (Assoc α) :=
  entries.mapM fun (k, v) => (c.decode src v).map (k, ·)

/-- Mappings that keep the order of their keys. -/
def ordered (c : Codec α) : Codec (Assoc α) where
  encode m := .mapping (m.mapValues c.encode)
  decode src
    | .mapping entries => decodeEntries c src entries
    | v => .error (.wrongType v "a map")
  shape := .map c.shape

/-- Mappings sorted by key. -/
def sorted (c : Codec α) : Codec (Assoc α) where
  encode m := .mapping (m.mapValues c.encode)
  decode src
    | .mapping entries => (decodeEntries c src entries).map Assoc.sorted
    | v => .error (.wrongType v "a map")
  shape := .map c.shape

/-- Pairs, as lists of two items. -/
def pair (c : Codec α) (d : Codec β) : Codec (α × β) where
  encode p := .list [c.encode p.1, d.encode p.2]
  decode src
    | .list (a :: b :: rest) => do
      let x ← c.decode src a
      let y ← d.decode src b
      if rest.isEmpty then .ok (x, y)
      else
        .error (.wrongLength (rest.length + 2)
          (match src with
          | .direct => "fewer elements in array"
          | .gathered => "2 elements in sequence"))
    | .list [a] => do
      let _ ← c.decode src a
      .error (.wrongLength 1 "a tuple of size 2")
    | .list [] => .error (.wrongLength 0 "a tuple of size 2")
    | v => .error (.wrongType v "a tuple of size 2")

/-- A choice between named alternatives, written as the name. A mapping of the name to
null is read too. -/
def choice (all : List α) (name : α → String) : Codec α where
  encode a := .text (name a)
  decode _ v := do
    let pick (given : String) : Except DecodeError α :=
      match all.find? fun a => name a == given with
      | some a => .ok a
      | none => .error (.unknownVariant given (all.map name))
    match v with
    | .text given => pick given
    | .mapping [(given, inner)] =>
      let a ← pick given
      match inner with
      | .null => .ok a
      | other => .error (.wrongType other "unit")
    | .mapping entries => .error (.wrongValue (.mapping entries) "map with a single key")
    | other => .error (.wrongType other "string or map")
  shape := .text

/-- Read and write through a type with the same content. -/
def map (c : Codec α) (f : α → β) (g : β → α) : Codec β where
  encode b := c.encode (g b)
  decode src v := (c.decode src v).map f
  shape := c.shape

end Codec

end Rollout
