import Rollout.Value.Basic
import Rollout.Decimal.Reader

/-!
# Plain scalars of YAML

What an unquoted text stands for: null, a truth value, an integer (also in base 16, 8
or 2), a double, or itself.
-/

namespace Rollout.Yaml

/-- What an unquoted text stands for. -/
inductive Scalar where
  | null
  | bool (b : Bool)
  | int (n : Int)
  | double (x : Double)
  /-- An infinity or the number that is not one. -/
  | nonFinite
  | text

/-- The spellings of null. -/
def isNull (s : List Char) : Bool :=
  s.isEmpty || ["null", "Null", "NULL", "~"].any (·.toList == s)

/-- The truth value that a text spells. -/
def bool? (s : List Char) : Option Bool :=
  if ["true", "True", "TRUE"].any (·.toList == s) then some true
  else if ["false", "False", "FALSE"].any (·.toList == s) then some false
  else none

/-- Several digits that begin with zero, after a sign or none, are not a number. -/
def isZeroPadded (s : List Char) : Bool :=
  let digits := (splitSign s).2
  digits.length > 1 && digits.head? == some '0' && digits.all Char.isDigit

/-- The value of a digit in a base up to 16. -/
def digit? (base : Nat) (c : Char) : Option Nat :=
  let n :=
    if c.isDigit then c.toNat - '0'.toNat
    else if 'a' ≤ c ∧ c ≤ 'f' then c.toNat - 'a'.toNat + 10
    else if 'A' ≤ c ∧ c ≤ 'F' then c.toNat - 'A'.toNat + 10
    else base
  if n < base then some n else none

/-- The number that digits in a base spell. There has to be one. -/
def natInBase? (base : Nat) (s : List Char) : Option Nat :=
  if s.isEmpty then none
  else s.foldlM (fun n c => (digit? base c).map (n * base + ·)) 0

/-- The base that a number is marked with, and its digits. -/
def marked? : List Char → Option (Nat × List Char)
  | '0' :: 'x' :: rest => some (16, rest)
  | '0' :: 'o' :: rest => some (8, rest)
  | '0' :: 'b' :: rest => some (2, rest)
  | _ => none

/-- The size of an integer without a sign, if it is below `2 ^ 128`. -/
def magnitude? (s : List Char) : Option Nat :=
  let inBase := (marked? s).bind fun (base, digits) => natInBase? base digits
  match inBase.orElse fun _ => if isZeroPadded s then none else natInBase? 10 s with
  | some n => if n < Nat.pow 2 128 then some n else none
  | none => none

/-- The integer that an unquoted text spells. -/
def int? (s : List Char) : Option Int :=
  match s with
  | '-' :: rest =>
    (magnitude? rest).bind fun n => if n ≤ Nat.pow 2 127 then some (-(n : Int)) else none
  | '+' :: rest => (magnitude? rest).map (·)
  | rest => (magnitude? rest).map (·)

/-- The words for numbers that are not finite. -/
def isNonFinite (s : List Char) : Bool :=
  [".inf", ".Inf", ".INF", "+.inf", "+.Inf", "+.INF", "-.inf", "-.Inf", "-.INF", ".nan", ".NaN",
    ".NAN"].any (·.toList == s)

/-- The finite double that an unquoted text spells. -/
def double? (s : List Char) : Option Double :=
  match s with
  | '+' :: '-' :: _ => none
  | '+' :: '+' :: _ => none
  | s => Double.read? s

/-- What an unquoted text stands for. -/
def resolve (s : List Char) : Scalar :=
  if isNull s then .null
  else
    match bool? s, int? s with
    | some b, _ => .bool b
    | none, some n => .int n
    | none, none =>
      if isZeroPadded s then .text
      else if isNonFinite s then .nonFinite
      else
        match double? s with
        | some x => .double x
        | none => .text

/-- Whether a text, written without quotes, is read as itself. -/
def readsAsText (s : List Char) : Bool :=
  match resolve s with
  | .text => !isZeroPadded s
  | _ => false

end Rollout.Yaml
