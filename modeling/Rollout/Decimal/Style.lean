import Rollout.Decimal.Double

/-!
# How doubles are written

A double is written with the digits of the shortest decimal that stands for it, positionally or with
an exponent.
-/

/-!
### The shortest decimal of a double

A decimal *reads back* as a double if no other double is nearer to it. Of the decimals
that read back the shortest is taken, and of the shortest the nearest. For each number
of digits only the two decimals on either side of the double need to be tried, because
the decimals that read back form an interval around it.
-/

namespace Rollout

/-- The number `digits * 10 ^ exponent`. -/
structure Decimal where
  digits : Nat
  exponent : Int
deriving DecidableEq, Inhabited

namespace Decimal

/-- Move trailing zeros of the digits into the exponent, at most `fuel` of them. -/
def stripped : (fuel : Nat) → Decimal → Decimal
  | 0, d => d
  | fuel + 1, d =>
    if d.digits % 10 = 0 then stripped fuel ⟨d.digits / 10, d.exponent + 1⟩ else d

/-- The text of the digits. -/
def digitText (d : Decimal) : List Char := Nat.toDigits 10 d.digits

end Decimal

namespace Double

/-- How many digits stand before the point of a positive double, negative if zeros
follow the point. -/
def pointOf (x : Double) : Int :=
  (Nat.toDigits 10 (x.units * Nat.pow 10 400 / denominator)).length - 400

/-- The nearest decimal of `size` digits that reads back, if one does. -/
def decimalOf? (x : Double) (size : Nat) : Option Decimal :=
  let scale : Int := (size : Int) - pointOf x
  let up := Nat.pow 10 scale.toNat
  let den := denominator * Nat.pow 10 (-scale).toNat
  let low := (unitsAt (x.rank - 1) + x.units) * up
  let high := (x.units + unitsAt (x.rank + 1)) * up
  let readsBack (c : Nat) : Bool :=
    let here := 2 * c * den
    if x.rank % 2 = 0 then low ≤ here && here ≤ high else low < here && here < high
  let value := x.units * up
  let below := value / den
  let rest := value % den
  let lower : Option Decimal := if readsBack below then some ⟨below, -scale⟩ else none
  let upper : Option Decimal := if readsBack (below + 1) then some ⟨below + 1, -scale⟩ else none
  match lower, upper with
  | some a, some b =>
    if 2 * rest < den ∨ 2 * rest = den ∧ below % 2 = 0 then some a else some b
  | some a, none => some a
  | none, some b => some b
  | none, none => none

/-- The shortest decimal that reads back as the magnitude of a double, without trailing
zeros. Seventeen digits always suffice. -/
def shortest (x : Double) : Decimal :=
  if x.rank = 0 then ⟨0, 0⟩
  else
    (((List.range 17).findSome? fun n => decimalOf? x (n + 1)).getD ⟨0, 0⟩).stripped 400

end Double

/-!
### Styles

Whether a double has an exponent, and how the exponent and whole numbers are marked, is the
choice of the format that holds the number.
-/

/-- The choices that a format makes for its doubles. -/
structure NumberStyle where
  /-- The numbers written positionally: those whose point stands after the first bound
  and not after the second, counted from the first digit. Without bounds all are. -/
  positional : Option (Int × Int)
  /-- Whether a positive exponent has a plus sign. -/
  plus : Bool
  /-- Whether a whole number written positionally ends in `.0`. -/
  wholeMark : Bool

namespace NumberStyle

/-- Numbers in JSON texts and in HCL texts. -/
def json : NumberStyle := ⟨some (-5, 16), true, true⟩

/-- Numbers in YAML texts. -/
def yaml : NumberStyle := ⟨some (-5, 16), false, true⟩

/-- Numbers written out in full. -/
def full : NumberStyle := ⟨none, false, false⟩

/-- The text of an integer. -/
def int (n : Int) : List Char :=
  if n < 0 then '-' :: Nat.toDigits 10 n.natAbs else Nat.toDigits 10 n.natAbs

/-- Digits with the point where it belongs, filled up with zeros on either side. -/
def writePositional (style : NumberStyle) (digits : List Char) (point : Int) : List Char :=
  if point ≤ 0 then '0' :: '.' :: List.replicate (-point).toNat '0' ++ digits
  else if point < digits.length then digits.take point.toNat ++ '.' :: digits.drop point.toNat
  else
    digits ++ List.replicate (point.toNat - digits.length) '0' ++
      if style.wholeMark then ['.', '0'] else []

/-- Digits with a point after the first and an exponent. -/
def writeExponent (style : NumberStyle) (digits : List Char) (point : Int) : List Char :=
  let mantissa :=
    match digits with
    | [] => []
    | [d] => [d]
    | d :: ds => d :: '.' :: ds
  let exponent := point - 1
  mantissa ++ 'e' :: (if style.plus && exponent > 0 then ['+'] else []) ++ int exponent

/-- The characters of a double in a format. -/
def write (style : NumberStyle) (x : Double) : List Char :=
  let sign := if x.negative then ['-'] else []
  if x.rank = 0 then sign ++ '0' :: if style.wholeMark then ['.', '0'] else []
  else
    let d := x.shortest
    let digits := d.digitText
    let point := (digits.length : Int) + d.exponent
    let isPositional :=
      match style.positional with
      | none => true
      | some (low, high) => low < point && point ≤ high
    sign ++
      if isPositional then writePositional style digits point
      else writeExponent style digits point

/-- The text of a double in a format. -/
def text (style : NumberStyle) (x : Double) : String := String.ofList (style.write x)

end NumberStyle

end Rollout
