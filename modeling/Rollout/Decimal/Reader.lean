import Rollout.Decimal.Double

/-!
# Reading numbers

Integers with an optional sign, and decimals with an optional point and exponent.
-/

namespace Rollout

/-- The number that decimal digits spell. -/
def digitsValue (digits : List Char) : Nat :=
  digits.foldl (fun n c => n * 10 + (c.toNat - '0'.toNat)) 0

/-- The leading decimal digits, and what follows them. -/
def spanDigits (s : List Char) : List Char × List Char := s.span Char.isDigit

/-- The sign at the head of a number, as whether it is negative, and what follows it. -/
def splitSign : List Char → Bool × List Char
  | '-' :: rest => (true, rest)
  | '+' :: rest => (false, rest)
  | s => (false, s)

/-- The integer that a text spells: an optional sign and at least one digit. -/
def readInt? (s : List Char) : Option Int :=
  let (negative, digits) := splitSign s
  if digits.isEmpty || !digits.all Char.isDigit then none
  else
    let n : Int := digitsValue digits
    some (if negative then -n else n)

/-- The least integer of 64 bits. -/
def minInt64 : Int := -9223372036854775808

/-- The largest integer of 64 bits with a sign. -/
def maxInt64 : Int := 9223372036854775807

/-- The largest integer of 64 bits without a sign. -/
def maxUInt64 : Int := 18446744073709551615

/-- The exponent at the head of a text, zero if there is none. A lone `e` is an error. -/
def readExponent? : List Char → Option (Int × List Char)
  | 'e' :: rest | 'E' :: rest =>
    let (negative, rest) := splitSign rest
    let (digits, rest) := spanDigits rest
    if digits.isEmpty then none
    else
      let n : Int := digitsValue digits
      some (if negative then -n else n, rest)
  | rest => some (0, rest)

/-- A decimal: its sign, its digits as one number, and the power of ten they count. -/
structure SignedDecimal where
  negative : Bool
  digits : Nat
  exponent : Int
deriving DecidableEq

/-- The decimal that a text spells. There has to be a digit before or after the point. -/
def SignedDecimal.read? (s : List Char) : Option SignedDecimal := do
  let (negative, rest) := splitSign s
  let (whole, rest) := spanDigits rest
  let (places, rest) :=
    match rest with
    | '.' :: rest => spanDigits rest
    | rest => ([], rest)
  if whole.isEmpty && places.isEmpty then none
  else
    let (exponent, rest) ← readExponent? rest
    if rest.isEmpty then some ⟨negative, digitsValue (whole ++ places), exponent - places.length⟩
    else none

/-- The double nearest to a decimal, if it is finite. -/
def SignedDecimal.toDouble? (d : SignedDecimal) : Option Double :=
  Double.ofDecimal? d.negative d.digits d.exponent

/-- The finite double nearest to the decimal that a text spells. -/
def Double.read? (s : List Char) : Option Double :=
  (SignedDecimal.read? s).bind SignedDecimal.toDouble?

end Rollout
