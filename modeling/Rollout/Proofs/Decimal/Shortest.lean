import Mathlib.Algebra.Order.Field.Rat
import Mathlib.Order.Monotone.Basic
import Mathlib.Tactic.Linarith
import Mathlib.Tactic.Positivity
import Mathlib.Tactic.Ring
import Rollout.Decimal.Style

/-!
# Shortest decimals that read back

The decimals that read back as a double lie between the middles of the gaps to its two neighbours,
so that no decimal reads back as two doubles of one sign. With seventeen digits two decimals in a
row are nearer to each other than these middles are, and therefore the search for the shortest
decimal ends with one that reads back.
-/

namespace Rollout

/-- The number that a decimal is. -/
def Decimal.value (d : Decimal) : ℚ := d.digits * 10 ^ d.exponent

theorem Decimal.value_stripped (fuel : Nat) (d : Decimal) :
    (d.stripped fuel).value = d.value := by
  induction fuel generalizing d with
  | zero => rfl
  | succ fuel ih =>
    rw [stripped]
    split
    · rename_i hzero
      have hdigits : (d.digits : ℚ) = (d.digits / 10 : Nat) * 10 := by
        exact_mod_cast (Nat.div_mul_cancel (Nat.dvd_of_mod_eq_zero hzero)).symm
      rw [ih, value, value, zpow_add₀ (by norm_num), zpow_one, hdigits]
      ring
    · rfl

namespace Double

variable {rank other scale place : Nat} {q : ℚ} {x : Double}

/-! ### Gaps between magnitudes -/

/-- The gap above a magnitude. -/
def gapAt (rank : Nat) : Nat := 2 ^ (rank / 2 ^ 52 - 1)

/-- A magnitude with a full significand: between one power of two and the next, at some place. -/
structure IsPlaced (rank scale place : Nat) : Prop where
  rank_eq : rank = (scale + 1) * 2 ^ 52 + place
  place_lt : place < 2 ^ 52

theorem exists_isPlaced (h : 2 ^ 52 ≤ rank) : ∃ scale place, IsPlaced rank scale place :=
  ⟨rank / 2 ^ 52 - 1, rank % 2 ^ 52, by omega, by omega⟩

theorem unitsAt_of_lt (h : rank < 2 ^ 52) : unitsAt rank = rank := if_pos h

theorem IsPlaced.unitsAt_eq (h : IsPlaced rank scale place) :
    unitsAt rank = (2 ^ 52 + place) * 2 ^ scale := by
  obtain ⟨hrank, hplace⟩ := h
  have hlarge : ¬ rank < Nat.pow 2 52 := by
    rw [Nat.pow_eq]
    omega
  have hdiv : rank / Nat.pow 2 52 = scale + 1 := by
    rw [Nat.pow_eq]
    omega
  have hmod : rank % Nat.pow 2 52 = place := by
    rw [Nat.pow_eq]
    omega
  rw [unitsAt, if_neg hlarge, hdiv, hmod]
  rfl

theorem gapAt_of_lt (h : rank < 2 ^ 52) : gapAt rank = 1 := by
  rw [gapAt, Nat.div_eq_of_lt h]
  rfl

theorem IsPlaced.gapAt_eq (h : IsPlaced rank scale place) : gapAt rank = 2 ^ scale := by
  obtain ⟨hrank, hplace⟩ := h
  have hdiv : rank / 2 ^ 52 = scale + 1 := by omega
  rw [gapAt, hdiv]
  rfl

theorem gapAt_pos (rank : Nat) : 0 < gapAt rank := Nat.pow_pos (by decide)

theorem unitsAt_succ (rank : Nat) : unitsAt (rank + 1) = unitsAt rank + gapAt rank := by
  obtain hsmall | hlarge := Nat.lt_or_ge rank (2 ^ 52)
  · rw [unitsAt_of_lt hsmall, gapAt_of_lt hsmall]
    obtain hnext | hlast := Nat.lt_or_ge (rank + 1) (2 ^ 52)
    · exact unitsAt_of_lt hnext
    · have hplaced : IsPlaced (rank + 1) 0 0 := ⟨by omega, by omega⟩
      have hunits := hplaced.unitsAt_eq
      omega
  · obtain ⟨scale, place, hplaced⟩ := exists_isPlaced hlarge
    obtain ⟨hrank, hplace⟩ := id hplaced
    rw [hplaced.unitsAt_eq, hplaced.gapAt_eq, ← Nat.succ_mul]
    obtain hnext | hlast := Nat.lt_or_ge (place + 1) (2 ^ 52)
    · have hsucc : IsPlaced (rank + 1) scale (place + 1) := ⟨by omega, hnext⟩
      exact hsucc.unitsAt_eq
    · -- the next magnitude is a power of two, with which wider gaps begin
      have hsucc : IsPlaced (rank + 1) (scale + 1) 0 := ⟨by omega, by omega⟩
      have hwhole : (2 ^ 52 + place).succ = 2 ^ 52 * 2 := by omega
      rw [hsucc.unitsAt_eq, hwhole, Nat.pow_succ]
      omega

theorem strictMono_unitsAt : StrictMono unitsAt :=
  strictMono_nat_of_lt_succ fun rank => by
    rw [unitsAt_succ]
    exact Nat.lt_add_of_pos_right (gapAt_pos rank)

/-- The gaps around a magnitude are not small beside it. -/
theorem unitsAt_lt_gaps (rank : Nat) :
    unitsAt (rank + 1) < 2 ^ 52 * (gapAt rank + gapAt (rank + 1)) := by
  have hgap := gapAt_pos rank
  obtain hsmall | hlarge := Nat.lt_or_ge (rank + 1) (2 ^ 52)
  · rw [unitsAt_of_lt hsmall, gapAt_of_lt hsmall]
    omega
  · obtain ⟨scale, place, hplaced⟩ := exists_isPlaced hlarge
    rw [hplaced.unitsAt_eq, hplaced.gapAt_eq]
    obtain ⟨hrank, hplace⟩ := hplaced
    cases place with
    | zero => omega
    | succ place =>
      have hbelow : IsPlaced rank scale place := ⟨by omega, by omega⟩
      have hscale : 0 < 2 ^ scale := Nat.pow_pos (by decide)
      have hplaces : 2 ^ 52 + (place + 1) < 2 ^ 52 * 2 := by omega
      rw [hbelow.gapAt_eq]
      calc (2 ^ 52 + (place + 1)) * 2 ^ scale < 2 ^ 52 * 2 * 2 ^ scale :=
            Nat.mul_lt_mul_of_pos_right hplaces hscale
        _ = 2 ^ 52 * (2 ^ scale + 2 ^ scale) := by omega

/-! ### Reading back -/

/-- Twice the middle of the gap below a magnitude, in the units of magnitudes. -/
def lowEnd (rank : Nat) : Nat := unitsAt (rank - 1) + unitsAt rank

/-- Twice the middle of the gap above a magnitude, in the units of magnitudes. -/
def highEnd (rank : Nat) : Nat := unitsAt rank + unitsAt (rank + 1)

/-- A number that is nearest to a magnitude: it stands between the middles of the gaps around it,
and may be such a middle where the magnitude is even. -/
def ReadsAs (rank : Nat) (q : ℚ) : Prop :=
  if rank % 2 = 0 then (lowEnd rank : ℚ) ≤ 2 * q * denominator ∧ 2 * q * denominator ≤ highEnd rank
  else (lowEnd rank : ℚ) < 2 * q * denominator ∧ 2 * q * denominator < highEnd rank

theorem ReadsAs.le (h : ReadsAs rank q) :
    (lowEnd rank : ℚ) ≤ 2 * q * denominator ∧ 2 * q * denominator ≤ highEnd rank := by
  rw [ReadsAs] at h
  split at h
  · exact h
  · exact ⟨h.1.le, h.2.le⟩

theorem ReadsAs.lt (h : ReadsAs rank q) (hodd : rank % 2 = 1) :
    (lowEnd rank : ℚ) < 2 * q * denominator ∧ 2 * q * denominator < highEnd rank := by
  rwa [ReadsAs, if_neg (by omega)] at h

/-- The middles above smaller magnitudes are not above those below larger ones. -/
theorem highEnd_le_lowEnd (h : rank < other) : highEnd rank ≤ lowEnd other := by
  have hbelow := strictMono_unitsAt.monotone (show rank ≤ other - 1 by omega)
  have habove := strictMono_unitsAt.monotone (show rank + 1 ≤ other by omega)
  rw [highEnd, lowEnd]
  omega

theorem highEnd_lt_lowEnd (h : rank + 1 < other) : highEnd rank < lowEnd other := by
  have hbelow := strictMono_unitsAt (show rank < other - 1 by omega)
  have habove := strictMono_unitsAt.monotone (show rank + 1 ≤ other by omega)
  rw [highEnd, lowEnd]
  omega

theorem not_readsAs_of_lt (h : rank < other) (hrank : ReadsAs rank q) : ¬ ReadsAs other q := by
  intro hother
  have hends : (highEnd rank : ℚ) ≤ lowEnd other := by exact_mod_cast highEnd_le_lowEnd h
  -- of two neighbours one is odd, and then the middle between them reads as the other one
  by_cases hodd : rank % 2 = 1
  · linarith [(hrank.lt hodd).2, hother.le.1]
  by_cases hodd' : other % 2 = 1
  · linarith [hrank.le.2, (hother.lt hodd').1]
  · have hapart : (highEnd rank : ℚ) < lowEnd other := by
      exact_mod_cast highEnd_lt_lowEnd (show rank + 1 < other by omega)
    linarith [hrank.le.2, hother.le.1]

/-- A number reads as one magnitude at most. -/
theorem ReadsAs.unique (h : ReadsAs rank q) (h' : ReadsAs other q) : rank = other := by
  obtain hlt | heq | hlt := Nat.lt_trichotomy rank other
  · exact absurd h' (not_readsAs_of_lt hlt h)
  · exact heq
  · exact absurd h (not_readsAs_of_lt hlt h')

/-! ### The search -/

/-- Powers of ten with their negative part on the other side. -/
theorem ten_zpow_neg_mul (k : Int) : (10 : ℚ) ^ (-k) * 10 ^ k.toNat = 10 ^ (-k).toNat := by
  rw [← zpow_natCast, ← zpow_natCast, ← zpow_add₀ (by norm_num)]
  congr 1
  omega

/-- The test of the search on a number of digits, so many of which stand behind the point. -/
def readsBack (x : Double) (scale : Int) (digits : Nat) : Bool :=
  let low := lowEnd x.rank * Nat.pow 10 scale.toNat
  let high := highEnd x.rank * Nat.pow 10 scale.toNat
  let here := 2 * digits * (denominator * Nat.pow 10 (-scale).toNat)
  if x.rank % 2 = 0 then low ≤ here && here ≤ high else low < here && here < high

theorem readsBack_iff (x : Double) (scale : Int) (digits : Nat) :
    readsBack x scale digits = true ↔ ReadsAs x.rank (Decimal.value ⟨digits, -scale⟩) := by
  have hup : (0 : ℚ) < 10 ^ scale.toNat := by positivity
  have hhere : 2 * Decimal.value ⟨digits, -scale⟩ * denominator * 10 ^ scale.toNat =
      ((2 * digits * (denominator * Nat.pow 10 (-scale).toNat) : Nat) : ℚ) := by
    rw [Decimal.value, Nat.pow_eq]
    push_cast
    rw [← ten_zpow_neg_mul scale]
    ring
  have hend (n : Nat) : ((n * Nat.pow 10 scale.toNat : Nat) : ℚ) = n * 10 ^ scale.toNat := by
    rw [Nat.pow_eq]
    push_cast
    rfl
  have hle (n : Nat) : n * Nat.pow 10 scale.toNat ≤
        2 * digits * (denominator * Nat.pow 10 (-scale).toNat) ↔
      (n : ℚ) ≤ 2 * Decimal.value ⟨digits, -scale⟩ * denominator := by
    rw [← Nat.cast_le (α := ℚ), hend, ← hhere, mul_le_mul_iff_of_pos_right hup]
  have hge (n : Nat) : 2 * digits * (denominator * Nat.pow 10 (-scale).toNat) ≤
        n * Nat.pow 10 scale.toNat ↔
      2 * Decimal.value ⟨digits, -scale⟩ * denominator ≤ (n : ℚ) := by
    rw [← Nat.cast_le (α := ℚ), hend, ← hhere, mul_le_mul_iff_of_pos_right hup]
  rw [readsBack, ReadsAs]
  split
  · simp only [Bool.and_eq_true, decide_eq_true_eq, hle, hge]
  · simp only [Bool.and_eq_true, decide_eq_true_eq, ← not_le, hle, hge]

variable {x : Double} {size : Nat} {d : Decimal}

/-- How many digits stand behind the point, negative if zeros follow the last digit. -/
def scaleOf (x : Double) (size : Nat) : Int := size - pointOf x

/-- The double times the power of ten that brings its digits before the point, as a numerator. -/
def scaled (x : Double) (size : Nat) : Nat := x.units * Nat.pow 10 (scaleOf x size).toNat

/-- The denominator of the double times that power of ten. -/
def spacing (x : Double) (size : Nat) : Nat := denominator * Nat.pow 10 (-scaleOf x size).toNat

/-- The digits just below a double. -/
def digitsBelow (x : Double) (size : Nat) : Nat := scaled x size / spacing x size

/-- A decimal that is tried: it is kept if it passes the test. -/
def candidate (x : Double) (scale : Int) (digits : Nat) : Option Decimal :=
  if readsBack x scale digits then some ⟨digits, -scale⟩ else none

theorem candidate_eq_some_iff {scale : Int} {digits : Nat} {d : Decimal} :
    candidate x scale digits = some d ↔
      readsBack x scale digits = true ∧ (⟨digits, -scale⟩ : Decimal) = d := by
  rw [candidate, Option.ite_none_right_eq_some, Option.some.injEq]

theorem candidate_eq_none_iff {scale : Int} {digits : Nat} :
    candidate x scale digits = none ↔ readsBack x scale digits ≠ true := by
  rw [candidate, ite_eq_right_iff]
  exact forall_congr' fun _ => iff_of_false nofun nofun

theorem decimalOf?_eq (x : Double) (size : Nat) : decimalOf? x size =
    match candidate x (scaleOf x size) (digitsBelow x size),
      candidate x (scaleOf x size) (digitsBelow x size + 1) with
    | some a, some b =>
      if 2 * (scaled x size % spacing x size) < spacing x size ∨
        2 * (scaled x size % spacing x size) = spacing x size ∧ digitsBelow x size % 2 = 0
      then some a else some b
    | some a, none => some a
    | none, some b => some b
    | none, none => none :=
  rfl

/-- Of the decimals below and above one is taken, and none only if both fail. -/
theorem decimalOf?_eq_candidate (x : Double) (size : Nat) :
    (decimalOf? x size = candidate x (scaleOf x size) (digitsBelow x size) ∨
      decimalOf? x size = candidate x (scaleOf x size) (digitsBelow x size + 1)) ∧
    (decimalOf? x size = none → candidate x (scaleOf x size) (digitsBelow x size) = none ∧
      candidate x (scaleOf x size) (digitsBelow x size + 1) = none) := by
  rw [decimalOf?_eq]
  cases candidate x (scaleOf x size) (digitsBelow x size) with
  | none => cases candidate x (scaleOf x size) (digitsBelow x size + 1) <;> simp
  | some a =>
    cases candidate x (scaleOf x size) (digitsBelow x size + 1) with
    | none => simp
    | some b => dsimp only; split <;> simp

/-- What is found reads back. -/
theorem readsAs_of_decimalOf? {size : Nat} {d : Decimal} (h : decimalOf? x size = some d) :
    ReadsAs x.rank d.value := by
  obtain ⟨heq | heq, -⟩ := decimalOf?_eq_candidate x size
  all_goals
    rw [heq, candidate_eq_some_iff] at h
    obtain ⟨htest, rfl⟩ := h
    exact (readsBack_iff x _ _).mp htest

theorem readsBack_of_lt {scale : Int} {digits : Nat}
    (hlow : lowEnd x.rank * 10 ^ scale.toNat <
      2 * digits * (denominator * 10 ^ (-scale).toNat))
    (hhigh : 2 * digits * (denominator * 10 ^ (-scale).toNat) <
      highEnd x.rank * 10 ^ scale.toNat) : readsBack x scale digits = true := by
  rw [readsBack]
  simp only [Nat.pow_eq]
  split
  · simp [hlow.le, hhigh.le]
  · simp [hlow, hhigh]

/-! ### Seventeen digits -/

/-- The last of seventeen digits counts less than half of the gaps around a number. -/
theorem two_mul_lt_gaps {den units gaps places size : Nat} (hsize : 0 < size)
    (hunits : den * 10 ^ (size - 1) ≤ units * Nat.pow 10 places) (hgaps : units < 2 ^ 52 * gaps) :
    2 * (den * 10 ^ (size - (places + 17))) < gaps * 10 ^ (places + 17 - size) := by
  rw [Nat.pow_eq] at hunits
  have hpow : 10 ^ (size - 1) * 10 ^ (places + 17 - size) =
      10 ^ (size - (places + 17)) * 10 ^ 16 * 10 ^ places := by
    rw [← Nat.pow_add, ← Nat.pow_add, ← Nat.pow_add]
    congr 1
    omega
  have hten (n : Nat) : 0 < 10 ^ n := Nat.pow_pos (by decide)
  have hscaled : den * 10 ^ (size - (places + 17)) * 10 ^ 16 <
      2 ^ 52 * (gaps * 10 ^ (places + 17 - size)) := by
    refine Nat.lt_of_mul_lt_mul_right (a := 10 ^ places) ?_
    calc den * 10 ^ (size - (places + 17)) * 10 ^ 16 * 10 ^ places
        = den * 10 ^ (size - 1) * 10 ^ (places + 17 - size) := by
          rw [Nat.mul_assoc den _ (10 ^ (places + 17 - size)), hpow]
          ring
      _ ≤ units * 10 ^ places * 10 ^ (places + 17 - size) := Nat.mul_le_mul_right _ hunits
      _ < 2 ^ 52 * gaps * 10 ^ places * 10 ^ (places + 17 - size) :=
          Nat.mul_lt_mul_of_pos_right (Nat.mul_lt_mul_of_pos_right hgaps (hten places)) (hten _)
      _ = 2 ^ 52 * (gaps * 10 ^ (places + 17 - size)) * 10 ^ places := by ring
  omega

theorem denominator_pos : 0 < denominator := by decide +kernel

theorem denominator_le {places : Nat} (h : places = 400) : denominator ≤ Nat.pow 10 places := by
  subst h
  decide +kernel

/-- A positive number has as many digits as the power of ten below it has zeros, and one more. -/
theorem pow_length_toDigits_le {n : Nat} (hn : 0 < n) :
    10 ^ ((Nat.toDigits 10 n).length - 1) ≤ n := by
  obtain hone | hmore := Nat.lt_or_ge 1 (Nat.toDigits 10 n).length
  · have hlength := Nat.length_toDigits_le_iff (n := n) (k := (Nat.toDigits 10 n).length - 1)
      (b := 10) (by decide) (by omega)
    exact Nat.not_lt.mp fun hlt => absurd (hlength.mpr hlt) (by omega)
  · rw [Nat.sub_eq_zero_of_le hmore]
    exact hn

/-- The first digit of a positive double does not count more than the double. -/
theorem pow_le_units (hrank : 0 < x.rank) : ∃ places size : Nat, 0 < size ∧
    pointOf x = size - places ∧ denominator * 10 ^ (size - 1) ≤ x.units * Nat.pow 10 places := by
  -- the power of ten is too large to be computed here
  obtain ⟨places, hplaces⟩ : ∃ places, places = 400 := ⟨400, rfl⟩
  obtain ⟨n, hn⟩ : ∃ n, n = x.units * Nat.pow 10 places / denominator := ⟨_, rfl⟩
  have hpoint : pointOf x = ((Nat.toDigits 10 n).length : Int) - places := by
    unfold pointOf
    rw [← hplaces, ← hn, hplaces]
    rfl
  have hunits : 0 < x.units := Nat.lt_of_lt_of_le hrank strictMono_unitsAt.le_apply
  have hden := denominator_le hplaces
  have hpos : 0 < n := by
    rw [hn]
    exact Nat.div_pos (hden.trans (Nat.le_mul_of_pos_left _ hunits)) denominator_pos
  have hle : denominator * n ≤ x.units * Nat.pow 10 places := by
    rw [hn]
    exact Nat.mul_div_le _ _
  exact ⟨places, _, Nat.length_toDigits_pos, hpoint,
    (Nat.mul_le_mul_left denominator (pow_length_toDigits_le hpos)).trans hle⟩

theorem spacing_pos (x : Double) (size : Nat) : 0 < spacing x size :=
  Nat.mul_pos denominator_pos (Nat.pow_pos (by decide))

/-- With seventeen digits, two decimals in a row stand nearer to each other than the middles of the
gaps around a double do. -/
theorem two_mul_spacing_lt {below : Nat} (hrank : x.rank = below + 1) :
    2 * spacing x 17 < (gapAt below + gapAt x.rank) * 10 ^ (scaleOf x 17).toNat := by
  obtain ⟨places, size, hsize, hpoint, hlow⟩ := pow_le_units (show 0 < x.rank by omega)
  have hgaps : x.units < 2 ^ 52 * (gapAt below + gapAt x.rank) := by
    rw [units, hrank]
    exact unitsAt_lt_gaps below
  have hup : (scaleOf x 17).toNat = places + 17 - size := by
    rw [scaleOf, hpoint]
    omega
  have hdown : (-scaleOf x 17).toNat = size - (places + 17) := by
    rw [scaleOf, hpoint]
    omega
  rw [spacing, hup, hdown]
  exact two_mul_lt_gaps hsize hlow hgaps

/-- Of the two decimals with seventeen digits around a positive double, one reads back. -/
theorem exists_decimalOf?_seventeen (hrank : 0 < x.rank) : ∃ d, decimalOf? x 17 = some d := by
  obtain ⟨below, hbelow⟩ : ∃ below, x.rank = below + 1 := ⟨x.rank - 1, by omega⟩
  have hspacing := two_mul_spacing_lt hbelow
  rw [Nat.add_mul] at hspacing
  have hup : 0 < 10 ^ (scaleOf x 17).toNat := Nat.pow_pos (by decide)
  have hgapBelow := Nat.mul_pos (gapAt_pos below) hup
  have hgapAbove := Nat.mul_pos (gapAt_pos x.rank) hup
  have hsplit : spacing x 17 * digitsBelow x 17 + scaled x 17 % spacing x 17 = scaled x 17 :=
    Nat.div_add_mod _ _
  have hunits : x.units = unitsAt below + gapAt below := by
    rw [units, hbelow, unitsAt_succ]
  have hlow : lowEnd x.rank * 10 ^ (scaleOf x 17).toNat +
      gapAt below * 10 ^ (scaleOf x 17).toNat = 2 * scaled x 17 := by
    rw [lowEnd, scaled, ← units, hbelow, Nat.add_sub_cancel, hunits, Nat.pow_eq]
    ring
  have hhigh : highEnd x.rank * 10 ^ (scaleOf x 17).toNat =
      2 * scaled x 17 + gapAt x.rank * 10 ^ (scaleOf x 17).toNat := by
    rw [highEnd, scaled, ← units, unitsAt_succ, ← units, Nat.pow_eq]
    ring
  have htest (digits : Nat) : 2 * digits * (denominator * 10 ^ (-scaleOf x 17).toNat) =
      2 * (spacing x 17 * digits) := by
    rw [spacing, Nat.pow_eq]
    ring
  have hrest := Nat.mod_lt (scaled x 17) (spacing_pos x 17)
  by_contra hnone
  obtain ⟨hbelow, habove⟩ := (decimalOf?_eq_candidate x 17).2
    (Option.eq_none_iff_forall_ne_some.mpr fun d h => hnone ⟨d, h⟩)
  rw [candidate_eq_none_iff] at hbelow habove
  by_cases hnear : 2 * (scaled x 17 % spacing x 17) < gapAt below * 10 ^ (scaleOf x 17).toNat
  · refine hbelow (readsBack_of_lt ?_ ?_)
    · rw [htest]
      omega
    · rw [htest]
      omega
  · refine habove (readsBack_of_lt ?_ ?_)
    · rw [htest, Nat.mul_add]
      omega
    · rw [htest, Nat.mul_add]
      omega

theorem shortest_of_rank_eq_zero (h : x.rank = 0) : x.shortest = ⟨0, 0⟩ := if_pos h

/-- The shortest decimal of a double reads back as it. -/
theorem readsAs_shortest (x : Double) : ReadsAs x.rank x.shortest.value := by
  by_cases hrank : x.rank = 0
  · have hlow : lowEnd 0 = 0 := rfl
    have hvalue : (⟨0, 0⟩ : Decimal).value = 0 := by
      rw [Decimal.value, Nat.cast_zero, zero_mul]
    rw [shortest_of_rank_eq_zero hrank, hrank, hvalue, ReadsAs, if_pos rfl, hlow, mul_zero,
      zero_mul, Nat.cast_zero]
    exact ⟨le_refl 0, Nat.cast_nonneg _⟩
  · obtain ⟨d, hd⟩ := exists_decimalOf?_seventeen (Nat.pos_of_ne_zero hrank)
    rw [shortest, if_neg hrank, Decimal.value_stripped]
    cases hsearch : (List.range 17).findSome? fun n => decimalOf? x (n + 1) with
    | none =>
      have hnone := List.findSome?_eq_none_iff.mp hsearch 16 (by decide)
      exact absurd (hnone.symm.trans hd) nofun
    | some found =>
      obtain ⟨size, -, hfound⟩ := List.exists_of_findSome?_eq_some hsearch
      exact readsAs_of_decimalOf? hfound

end Double

end Rollout
