import Rollout.Duration
import Rollout.Proofs.Decimal.Digits
import Rollout.Proofs.Text

/-!
# Durations that are read back

A duration is written as spans of decreasing units. Reading takes one span after the other
and adds them up, and the spans that are left out as zero add nothing.
-/

namespace Rollout.Duration

theorem toNat_of_isUnitChar {c : Char} (h : isUnitChar c = true) :
    (65 ≤ c.toNat ∧ c.toNat ≤ 90) ∨ (97 ≤ c.toNat ∧ c.toNat ≤ 122) ∨ c.toNat = 181 := by
  simp only [isUnitChar, Bool.or_eq_true, Text.isAlpha_iff, Text.isUpper_iff, Text.isLower_iff,
    decide_eq_true_eq] at h
  obtain (h | h) | h := h
  · exact .inl h
  · exact .inr (.inl h)
  · exact .inr (.inr (by rw [h]; rfl))

theorem not_isBlank_of_isDigit {c : Char} (h : c.isDigit = true) : Text.isBlank c = false := by
  obtain ⟨hlow, hhigh⟩ := toNat_of_isDigit h
  exact Text.not_isBlank_of_toNat (by omega) (by omega)

theorem isNumberChar_of_isDigit {c : Char} (h : c.isDigit = true) : isNumberChar c = true := by
  rw [isNumberChar, h, Bool.true_or]

/-- What begins the name of a unit belongs to no number. -/
theorem not_isNumberChar_of_isUnitChar {c : Char} (h : isUnitChar c = true) :
    isNumberChar c = false := by
  have hcode := toNat_of_isUnitChar h
  have hdigit : c.isDigit = false := by
    refine Bool.eq_false_iff.mpr fun hdigit => ?_
    obtain ⟨hlow, hhigh⟩ := toNat_of_isDigit hdigit
    omega
  rw [isNumberChar, hdigit, Bool.false_or]
  exact Text.not_isBlank_of_toNat (by omega) (by omega)

/-- The nanoseconds of a unit, zero if it is none. -/
def unitOf (name : String) : Nat := (unit? name.toList).getD 0

/-- The nanoseconds of a span. -/
def spanNanos (p : Nat × String) : Nat := p.1 * unitOf p.2

/-- The nanoseconds of several spans. -/
def totalNanos : List (Nat × String) → Nat
  | [] => 0
  | p :: ps => spanNanos p + totalNanos ps

/-- How a span is written. -/
def spanChars (p : Nat × String) : List Char := Nat.toDigits 10 p.1 ++ p.2.toList

/-- A span whose number fits and whose unit is one. -/
structure IsSpan (p : Nat × String) : Prop where
  fits : p.1 < UInt64.size
  scaled : p.1 * (if unitOf p.2 < second then unitOf p.2 else unitOf p.2 / second) < UInt64.size
  isUnit : unit? p.2.toList = some (unitOf p.2)
  isUnitChar : ∀ c ∈ p.2.toList, isUnitChar c = true
  nonempty : p.2.toList ≠ []

/-- One span is read up to the blank behind it or the end. -/
theorem readSpans_span {p : Nat × String} (hp : IsSpan p) {blanks rest : List Char}
    (hblanks : ∀ c ∈ blanks, Text.isBlank c = true)
    (hrest : ∀ c ∈ rest.head?, isUnitChar c = false) (fuel : Nat) :
    readSpans (fuel + 1) (blanks ++ (spanChars p ++ rest)) =
      if (rest.dropWhile Text.isBlank).isEmpty then some (spanNanos p)
      else (readSpans fuel rest).map (spanNanos p + ·) := by
  have hdigits : ∀ c ∈ Nat.toDigits 10 p.1, c.isDigit = true :=
    fun _ hc => isDigit_of_mem_toDigits hc
  obtain ⟨first, digits, hcons⟩ := List.exists_cons_of_ne_nil
    (Nat.toDigits_ne_nil (b := 10) (n := p.1))
  obtain ⟨letter, letters, hname⟩ := List.exists_cons_of_ne_nil hp.nonempty
  have hfirst : first.isDigit = true := hdigits first (by simp [hcons])
  have hletter : isUnitChar letter = true := hp.isUnitChar letter (by simp [hname])
  have hstart : (blanks ++ (spanChars p ++ rest)).dropWhile Text.isBlank =
      first :: (digits ++ (p.2.toList ++ rest)) := by
    rw [List.dropWhile_append_of_pos hblanks, spanChars, hcons]
    simp [not_isBlank_of_isDigit hfirst]
  have hnumber : (first :: (digits ++ (p.2.toList ++ rest))).span isNumberChar =
      (Nat.toDigits 10 p.1, p.2.toList ++ rest) := by
    rw [← List.cons_append, ← hcons]
    refine span_append (fun c hc => isNumberChar_of_isDigit (hdigits c hc)) ?_
    simp [hname, not_isNumberChar_of_isUnitChar hletter]
  have hunit : (p.2.toList ++ rest).span Duration.isUnitChar = (p.2.toList, rest) :=
    span_append hp.isUnitChar hrest
  rw [List.span_eq_takeWhile_dropWhile, hname] at hunit
  obtain ⟨htake, hdrop⟩ := Prod.mk.inj hunit
  have hpoint : letter ≠ '.' := by
    rintro rfl
    exact absurd hletter (by decide)
  have hvalue : digitsValue ((Nat.toDigits 10 p.1).filter Char.isDigit) = p.1 := by
    rw [List.filter_eq_self.mpr hdigits, digitsValue_toDigits]
  have hnanos : spanNanos? p.1 none (unitOf p.2) = some (spanNanos p) := by
    have hscaled := hp.scaled
    simp only [spanNanos?]
    rw [if_neg (by omega)]
    rfl
  have hisUnit : unit? (letter :: letters) = some (unitOf p.2) := by rw [← hname, hp.isUnit]
  have hfits : ¬ UInt64.size ≤ p.1 := Nat.not_le.mpr hp.fits
  rw [readSpans, hstart]
  simp only [hfirst, hnumber, hvalue]
  simp only [hname, List.cons_append] at htake hdrop ⊢
  cases hnext : readSpans fuel rest <;>
    simp only [hpoint, htake, hdrop, hisUnit, hnanos, hfits, hnext,
      List.span_eq_takeWhile_dropWhile, List.cons.injEq, List.isEmpty_iff, Option.bind_eq_bind,
      Option.bind_none, Option.bind_some, Option.map_none, Option.map_some, Bool.not_true,
      Bool.false_eq_true, false_and, imp_self, implies_true, reduceCtorEq, or_self, if_false]

theorem isEmpty_of_readSpans {fuel : Nat} {s : List Char} {n : Nat}
    (h : readSpans fuel s = some n) : (s.dropWhile Text.isBlank).isEmpty = false := by
  cases fuel with
  | zero => simp [readSpans] at h
  | succ fuel =>
    cases hs : s.dropWhile Text.isBlank with
    | nil => simp [readSpans, hs] at h
    | cons c rest => rfl

/-- Spans as they are written one after the other. -/
def spansChars (ps : List (Nat × String)) : List Char := [' '].intercalate (ps.map spanChars)

theorem spansChars_cons_cons (p q : Nat × String) (ps : List (Nat × String)) :
    spansChars (p :: q :: ps) = spanChars p ++ (' ' :: spansChars (q :: ps)) := by
  simp [spansChars, List.intercalate_cons_cons]

/-- Spans are read as their sum. -/
theorem readSpans_spansChars (blanks : List Char) (hblanks : ∀ c ∈ blanks, Text.isBlank c = true)
    {ps : List (Nat × String)} (hps : ∀ p ∈ ps, IsSpan p) (hne : ps ≠ []) {fuel : Nat}
    (hfuel : ps.length ≤ fuel) :
    readSpans fuel (blanks ++ spansChars ps) = some (totalNanos ps) := by
  induction ps generalizing blanks fuel with
  | nil => exact absurd rfl hne
  | cons p ps ih =>
    obtain ⟨fuel, rfl⟩ := Nat.exists_eq_add_one_of_ne_zero (Nat.ne_of_gt (Nat.lt_of_lt_of_le
      (Nat.zero_lt_succ _) hfuel))
    have hp := hps p List.mem_cons_self
    cases ps with
    | nil =>
      have hend : ∀ c ∈ ([] : List Char).head?, isUnitChar c = false := nofun
      have hspan := readSpans_span hp hblanks hend fuel
      simpa [spansChars, totalNanos] using hspan
    | cons q ps =>
      have hrest : readSpans fuel ([' '] ++ spansChars (q :: ps)) =
          some (totalNanos (q :: ps)) := by
        refine ih [' '] ?_ (fun r hr => hps r (List.mem_cons_of_mem p hr)) nofun ?_
        · simp [Text.isBlank]
        · simpa using hfuel
      rw [spansChars_cons_cons, readSpans_span hp hblanks (by simp [isUnitChar])]
      have hempty := isEmpty_of_readSpans hrest
      rw [List.singleton_append] at hrest hempty
      simp [hrest, hempty, totalNanos]

theorem length_le_length_spansChars (ps : List (Nat × String)) :
    ps.length ≤ (spansChars ps).length := by
  induction ps with
  | nil => exact Nat.zero_le _
  | cons p ps ih =>
    cases ps with
    | nil =>
      have hdigits : 0 < (Nat.toDigits 10 p.1).length := Nat.length_toDigits_pos
      simp [spansChars, spanChars]
      omega
    | cons q ps =>
      simp only [spansChars_cons_cons, List.length_append, List.length_cons] at ih ⊢
      omega

/-- Spans of no length add nothing. -/
theorem totalNanos_filter (ps : List (Nat × String)) :
    totalNanos (ps.filter (·.1 > 0)) = totalNanos ps := by
  induction ps with
  | nil => rfl
  | cons p ps ih =>
    rw [List.filter_cons]
    split
    next => rw [totalNanos, ih, totalNanos]
    next hzero =>
      have hp : p.1 = 0 := by simpa using hzero
      rw [ih, totalNanos, spanNanos, hp, Nat.zero_mul, Nat.zero_add]

/-- The names of units that spans are written with. -/
def writtenUnits : List String :=
  ["year", "years", "month", "months", "day", "days", "h", "m", "s", "ms", "us", "ns"]

theorem isUnit_of_mem_writtenUnits : ∀ name ∈ writtenUnits,
    unit? name.toList = some (unitOf name) ∧ name.toList.all isUnitChar = true ∧
      name.toList ≠ [] := by
  decide

theorem isSpan_of_mem_writtenUnits {n : Nat} {name : String} (hname : name ∈ writtenUnits)
    (hfits : n < UInt64.size)
    (hscaled : n * (if unitOf name < second then unitOf name else unitOf name / second) <
      UInt64.size) :
    IsSpan (n, name) := by
  obtain ⟨hunit, hchars, hne⟩ := isUnit_of_mem_writtenUnits name hname
  exact ⟨hfits, hscaled, hunit, List.all_eq_true.mp hchars, hne⟩

/-- The name of a unit, in the plural if there are several of it. -/
def inPlural (n : Nat) (name : String) : String := if n > 1 then name ++ "s" else name

theorem inPlural_mem_writtenUnits (n : Nat) : inPlural n "year" ∈ writtenUnits ∧
    inPlural n "month" ∈ writtenUnits ∧ inPlural n "day" ∈ writtenUnits := by
  unfold inPlural
  split <;> decide

theorem unitOf_inPlural (n : Nat) : unitOf (inPlural n "year") = 31557600 * second ∧
    unitOf (inPlural n "month") = 2630016 * second ∧
    unitOf (inPlural n "day") = 86400 * second := by
  unfold inPlural
  split <;> decide

theorem unitOf_written : unitOf "h" = 3600 * second ∧ unitOf "m" = 60 * second ∧
    unitOf "s" = 1 * second ∧ unitOf "ms" = 1000000 ∧ unitOf "us" = 1000 ∧ unitOf "ns" = 1 := by
  decide

theorem spans_eq (d : Duration) : d.spans =
    let inYear := d.seconds % 31557600
    let inMonth := inYear % 2630016
    let inDay := inMonth % 86400
    let rest := d.nanos % second
    [(d.seconds / 31557600, inPlural (d.seconds / 31557600) "year"),
      (inYear / 2630016, inPlural (inYear / 2630016) "month"),
      (inMonth / 86400, inPlural (inMonth / 86400) "day"), (inDay / 3600, "h"),
      (inDay % 3600 / 60, "m"), (inDay % 60, "s"), (rest / 1000000, "ms"),
      (rest / 1000 % 1000, "us"), (rest % 1000, "ns")] :=
  rfl

/-- The spans of a second or more add up to the whole seconds. -/
theorem sum_seconds (s : Nat) :
    s / 31557600 * 31557600 + (s % 31557600 / 2630016 * 2630016 +
      (s % 31557600 % 2630016 / 86400 * 86400 + (s % 31557600 % 2630016 % 86400 / 3600 * 3600 +
        (s % 31557600 % 2630016 % 86400 % 3600 / 60 * 60 +
          s % 31557600 % 2630016 % 86400 % 60)))) = s := by
  omega

/-- The spans below a second add up to what is left. -/
theorem sum_nanos (n : Nat) :
    n / 1000000 * 1000000 + (n / 1000 % 1000 * 1000 + n % 1000) = n := by
  omega

theorem spanNanos_of_unitOf {name : String} {u : Nat} (h : unitOf name = u) (n : Nat) :
    spanNanos (n, name) = n * u := by
  rw [spanNanos, h]

/-- The sum of spans of all units, apart by whether they have a second. -/
theorem totalNanos_of_units (y mo d h mi s ms us ns : Nat) :
    totalNanos [(y, inPlural y "year"), (mo, inPlural mo "month"), (d, inPlural d "day"), (h, "h"),
      (mi, "m"), (s, "s"), (ms, "ms"), (us, "us"), (ns, "ns")] =
      (y * 31557600 + (mo * 2630016 + (d * 86400 + (h * 3600 + (mi * 60 + s))))) * second +
        (ms * 1000000 + (us * 1000 + ns)) := by
  obtain ⟨hh, hmi, hs, hms, hus, hns⟩ := unitOf_written
  -- the steps are rewritten one by one, as the numbers must not be computed with
  rw [totalNanos, spanNanos_of_unitOf (unitOf_inPlural y).1,
    totalNanos, spanNanos_of_unitOf (unitOf_inPlural mo).2.1,
    totalNanos, spanNanos_of_unitOf (unitOf_inPlural d).2.2,
    totalNanos, spanNanos_of_unitOf hh, totalNanos, spanNanos_of_unitOf hmi,
    totalNanos, spanNanos_of_unitOf hs, totalNanos, spanNanos_of_unitOf hms,
    totalNanos, spanNanos_of_unitOf hus, totalNanos, spanNanos_of_unitOf hns, totalNanos]
  generalize second = b
  simp only [Nat.add_mul, Nat.mul_assoc, Nat.add_assoc, Nat.mul_one, Nat.one_mul, Nat.add_zero]

theorem totalNanos_spans (d : Duration) : totalNanos d.spans = d.nanos := by
  rw [spans_eq, totalNanos_of_units, sum_seconds, sum_nanos]
  exact Nat.div_add_mod' d.nanos second

theorem scaled_of_seconds {n k u : Nat} (hu : u = k * second) (hk : 0 < k)
    (h : n * k < UInt64.size) : n * (if u < second then u else u / second) < UInt64.size := by
  have hnot : ¬ u < second := by
    rw [hu]
    exact Nat.not_lt.mpr (Nat.le_mul_of_pos_left second hk)
  rw [if_neg hnot, hu, Nat.mul_div_cancel k (by decide : 0 < second)]
  exact h

theorem scaled_of_nanos {n u : Nat} (hu : u < second) (h : n * u < UInt64.size) :
    n * (if u < second then u else u / second) < UInt64.size := by
  rwa [if_pos hu]

theorem isSpan_of_mem_spans {d : Duration} (h : d.seconds < UInt64.size) {p : Nat × String}
    (hp : p ∈ d.spans) : IsSpan p := by
  obtain ⟨hh, hmi, hs, hms, hus, hns⟩ := unitOf_written
  have hrest : d.nanos % second < 1000000000 := Nat.mod_lt _ (by decide)
  have hsize : 1000000000 < UInt64.size := by decide
  rw [spans_eq] at hp
  simp only [List.mem_cons, List.not_mem_nil, or_false] at hp
  obtain rfl | rfl | rfl | rfl | rfl | rfl | rfl | rfl | rfl := hp
  · exact isSpan_of_mem_writtenUnits (inPlural_mem_writtenUnits _).1 (by omega)
      (scaled_of_seconds (unitOf_inPlural _).1 (by decide) (by omega))
  · exact isSpan_of_mem_writtenUnits (inPlural_mem_writtenUnits _).2.1 (by omega)
      (scaled_of_seconds (unitOf_inPlural _).2.1 (by decide) (by omega))
  · exact isSpan_of_mem_writtenUnits (inPlural_mem_writtenUnits _).2.2 (by omega)
      (scaled_of_seconds (unitOf_inPlural _).2.2 (by decide) (by omega))
  · exact isSpan_of_mem_writtenUnits (by decide) (by omega)
      (scaled_of_seconds hh (by decide) (by omega))
  · exact isSpan_of_mem_writtenUnits (by decide) (by omega)
      (scaled_of_seconds hmi (by decide) (by omega))
  · exact isSpan_of_mem_writtenUnits (by decide) (by omega)
      (scaled_of_seconds hs (by decide) (by omega))
  · exact isSpan_of_mem_writtenUnits (by decide) (by omega)
      (scaled_of_nanos (by rw [hms]; decide) (by rw [hms]; omega))
  · exact isSpan_of_mem_writtenUnits (by decide) (by omega)
      (scaled_of_nanos (by rw [hus]; decide) (by rw [hus]; omega))
  · exact isSpan_of_mem_writtenUnits (by decide) (by omega)
      (scaled_of_nanos (by rw [hns]; decide) (by rw [hns]; omega))

theorem toList_text {d : Duration} (h : d.nanos ≠ 0) :
    d.text.toList = spansChars (d.spans.filter (·.1 > 0)) := by
  rw [text, if_neg h, String.toList_intercalate, List.map_map]
  have hspan : (String.toList ∘ fun p : Nat × String => s!"{p.1}{p.2}") = spanChars := by
    funext p
    simp only [Function.comp_apply, String.toList_append, Nat.toString_eq_repr, Nat.toList_repr,
      spanChars]
    rfl
  exact congrArg [' '].intercalate (congrArg (List.map · _) hspan)

/-- The text of a duration describes it, as long as its seconds fit. -/
theorem parse?_text {d : Duration} (h : d.seconds < UInt64.size) : parse? d.text = some d := by
  by_cases hzero : d.nanos = 0
  · obtain ⟨nanos⟩ := d
    subst hzero
    decide
  · have hsum : totalNanos (d.spans.filter (·.1 > 0)) = d.nanos := by
      rw [totalNanos_filter, totalNanos_spans]
    have hne : d.spans.filter (·.1 > 0) ≠ [] := by
      intro hnil
      rw [hnil] at hsum
      exact hzero hsum.symm
    have hread : readSpans (d.text.length + 1) d.text.toList = some d.nanos := by
      have hlength := length_le_length_spansChars (d.spans.filter (·.1 > 0))
      rw [← toList_text hzero, String.length_toList] at hlength
      rw [toList_text hzero, ← hsum]
      exact readSpans_spansChars [] nofun
        (fun p hp => isSpan_of_mem_spans h (List.mem_filter.mp hp).1) hne
        (Nat.le_succ_of_le hlength)
    have hnot : d.text ≠ "0" := by
      intro heq
      have hnone : readSpans ("0".length + 1) "0".toList = none := by decide
      rw [heq, hnone] at hread
      exact absurd hread nofun
    rw [parse?, if_neg hnot, hread]
    exact if_pos h

end Rollout.Duration
