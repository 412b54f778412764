/-!
# Doubles

The finite floating-point numbers of 64 bits. Those of one sign are numbered in order of
size: number 0 is zero and every further one is the next larger. A number's last bit is
the last bit of its significand, so that "ties go to even" is a statement about numbers.
All values are exact multiples of the smallest positive double, `2 ^ (-1074)`.
-/

namespace Rollout

/-- How many magnitudes a double has. -/
def Double.count : Nat := 2047 * Nat.pow 2 52

theorem Double.count_pos : 0 < Double.count := by decide

/-- A finite floating-point number of 64 bits. -/
structure Double where
  /-- Whether the number carries a minus sign. Zero may. -/
  negative : Bool
  /-- The place of the magnitude among all magnitudes, from zero on. -/
  rank : Nat
  /-- There is a largest magnitude. -/
  finite : rank < Double.count
deriving DecidableEq

namespace Double

/-- The denominator of all magnitudes. -/
def denominator : Nat := Nat.pow 2 1074

/-- The magnitude with a given place, as a multiple of the smallest positive one. -/
def unitsAt (rank : Nat) : Nat :=
  let hidden := Nat.pow 2 52
  if rank < hidden then rank else (hidden + rank % hidden) * Nat.pow 2 (rank / hidden - 1)

/-- The magnitude as a multiple of the smallest positive one. -/
def units (x : Double) : Nat := unitsAt x.rank

instance : Inhabited Double := ⟨⟨false, 0, count_pos⟩⟩

/-- The magnitude nearest to `num / den` by its place, which may be one too large to be
finite. Of two equally near ones it is the even one. -/
def rankOfRatio (num den : Nat) : Nat :=
  if num = 0 then 0
  else
    let gap : Int := (num.log2 : Int) - (den.log2 : Int)
    let small :=
      if gap ≥ 0 then num < den * Nat.pow 2 gap.toNat else num * Nat.pow 2 (-gap).toNat < den
    let top := if small then gap - 1 else gap
    let shift := max (top - 52) (-1074)
    let num := if shift ≥ 0 then num else num * Nat.pow 2 (-shift).toNat
    let den := if shift ≥ 0 then den * Nat.pow 2 shift.toNat else den
    let below := (shift + 1074).toNat * Nat.pow 2 52 + num / den
    let rest := num % den
    if 2 * rest > den ∨ 2 * rest = den ∧ below % 2 = 1 then below + 1 else below

/-- The double nearest to `num / den`, if it is finite. -/
def ofRatio? (negative : Bool) (num den : Nat) : Option Double :=
  let rank := rankOfRatio num den
  if h : rank < count then some ⟨negative, rank, h⟩ else none

/-- The double nearest to `digits * 10 ^ exponent`, if it is finite. -/
def ofDecimal? (negative : Bool) (digits : Nat) (exponent : Int) : Option Double :=
  if digits = 0 then some ⟨negative, 0, count_pos⟩
  else
    let size : Int := (Nat.toDigits 10 digits).length + exponent
    if size > 310 then none
    else if size < -330 then some ⟨negative, 0, count_pos⟩
    else if exponent ≥ 0 then ofRatio? negative (digits * Nat.pow 10 exponent.toNat) 1
    else ofRatio? negative digits (Nat.pow 10 (-exponent).toNat)

/-- The double nearest to an integer, if it is finite. -/
def ofInt? (n : Int) : Option Double := ofRatio? (n < 0) n.natAbs 1

/-- The double nearest to an integer of 64 bits, and zero for one that is out of reach. -/
def ofInt (n : Int) : Double := (ofInt? n).getD default

/-- The rounded product of two doubles, if it is finite. -/
def mul? (x y : Double) : Option Double :=
  ofRatio? (x.negative != y.negative) (x.units * y.units) (denominator * denominator)

/-- The rounded quotient of a double and one that is not zero, if it is finite. -/
def div? (x y : Double) : Option Double :=
  ofRatio? (x.negative != y.negative) x.units y.units

/-- The place of a double in the order of all doubles, where both zeros are zero. -/
def order (x : Double) : Int := if x.negative then -(x.rank : Int) else x.rank

/-- The integer that a double is, if it is one. -/
def toInt? (x : Double) : Option Int :=
  if x.units % denominator = 0 then
    let n : Int := x.units / denominator
    some (if x.negative then -n else n)
  else none

/-- The integer nearest to zero's side of a double: what precedes its point. -/
def truncate (x : Double) : Int :=
  let n : Int := x.units / denominator
  if x.negative then -n else n

/-- The integer nearest to a double, with halves away from zero. -/
def round (x : Double) : Int :=
  let n : Int := (2 * x.units + denominator) / (2 * denominator)
  if x.negative then -n else n

end Double

end Rollout
