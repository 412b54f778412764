import Rollout.Assoc
import Rollout.Decimal.Double

/-!
# Values

The tree of scalars, lists and mappings that definitions, records and chart values are
made of. A mapping keeps its keys in the order in which they were written.
-/

namespace Rollout

/-- A tree of scalars, lists and mappings. -/
inductive Value where
  | null
  | bool (b : Bool)
  | int (n : Int)
  | double (x : Double)
  | text (s : String)
  | list (items : List Value)
  | mapping (entries : List (String × Value))

namespace Value

instance : Inhabited Value := ⟨.null⟩

instance : Coe String Value := ⟨.text⟩

instance : Coe Bool Value := ⟨.bool⟩

mutual

/-- Whether two values are the same, with the keys of mappings in the same order. -/
def same : Value → Value → Bool
  | .null, .null => true
  | .bool a, .bool b => a == b
  | .int a, .int b => a == b
  | .double a, .double b => a == b
  | .text a, .text b => a == b
  | .list a, .list b => sameItems a b
  | .mapping a, .mapping b => sameEntries a b
  | _, _ => false

/-- `same` on lists of values. -/
def sameItems : List Value → List Value → Bool
  | [], [] => true
  | a :: as, b :: bs => same a b && sameItems as bs
  | _, _ => false

/-- `same` on the entries of mappings. -/
def sameEntries : List (String × Value) → List (String × Value) → Bool
  | [], [] => true
  | (k, a) :: as, (l, b) :: bs => k == l && same a b && sameEntries as bs
  | _, _ => false

end

mutual

theorem same_iff : ∀ a b : Value, same a b = true ↔ a = b
  | .null, b => by cases b <;> simp [same]
  | .bool x, b => by cases b <;> simp [same]
  | .int x, b => by cases b <;> simp [same]
  | .double x, b => by cases b <;> simp [same]
  | .text x, b => by cases b <;> simp [same]
  | .list xs, b => by cases b <;> simp [same, sameItems_iff xs]
  | .mapping xs, b => by cases b <;> simp [same, sameEntries_iff xs]

theorem sameItems_iff : ∀ as bs : List Value, sameItems as bs = true ↔ as = bs
  | [], bs => by cases bs <;> simp [sameItems]
  | a :: as, bs => by cases bs <;> simp [sameItems, same_iff a, sameItems_iff as]

theorem sameEntries_iff : ∀ as bs : List (String × Value), sameEntries as bs = true ↔ as = bs
  | [], bs => by cases bs <;> simp [sameEntries]
  | (k, a) :: as, bs => by
    cases bs with
    | nil => simp [sameEntries]
    | cons b bs => simp [sameEntries, same_iff a, sameEntries_iff as, Prod.ext_iff, and_assoc]

end

instance : DecidableEq Value := fun a b => decidable_of_iff _ (same_iff a b)

/-- The empty mapping. -/
def empty : Value := .mapping []

/-- A natural number as a value. -/
def nat (n : Nat) : Value := .int n

/-- A list of texts as a value. -/
def texts (items : List String) : Value := .list (items.map .text)

/-- A mapping of texts as a value. -/
def textMap (m : Assoc String) : Value := .mapping (m.mapValues .text)

/-- The text of a text. -/
def text? : Value → Option String
  | .text s => some s
  | _ => none

/-- The truth value of a truth value. -/
def bool? : Value → Option Bool
  | .bool b => some b
  | _ => none

/-- The number of an integer. -/
def int? : Value → Option Int
  | .int n => some n
  | _ => none

/-- The items of a list. -/
def items? : Value → Option (List Value)
  | .list items => some items
  | _ => none

/-- The entries of a mapping. -/
def entries? : Value → Option (Assoc Value)
  | .mapping entries => some entries
  | _ => none

/-- The entries of a mapping, and none for any other value. -/
def entries (v : Value) : Assoc Value := v.entries?.getD []

/-- The items of a list, and none for any other value. -/
def items (v : Value) : List Value := v.items?.getD []

/-- The value of a key of a mapping. -/
def field? (v : Value) (key : String) : Option Value := v.entries?.bind (·.get? key)

/-- Whether a value is a mapping. -/
def isMapping (v : Value) : Bool := v.entries?.isSome

/-- Whether a value is null. -/
def isNull : Value → Bool
  | .null => true
  | _ => false

mutual

/-- Sort the keys of every mapping inside a value. -/
def sortKeys : Value → Value
  | .list items => .list (sortItemKeys items)
  | .mapping entries => .mapping (Assoc.sorted (sortEntryKeys entries))
  | v => v

def sortItemKeys : List Value → List Value
  | [] => []
  | v :: vs => sortKeys v :: sortItemKeys vs

def sortEntryKeys : List (String × Value) → List (String × Value)
  | [] => []
  | (k, v) :: rest => (k, sortKeys v) :: sortEntryKeys rest

end

end Value

end Rollout
