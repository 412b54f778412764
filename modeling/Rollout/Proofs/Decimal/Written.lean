import Mathlib.Tactic.FieldSimp
import Rollout.Decimal.Style
import Rollout.Proofs.Decimal.Digits
import Rollout.Proofs.Decimal.Shortest

/-!
# Numbers and their texts

Whatever style a double is written in, its text spells the shortest decimal that reads back as it,
and so no two doubles are written alike. The text of an integer spells the integer, and in JSON no
integer is written like a double.
-/

namespace Rollout

variable {digits rest : List Char} {n : Int}

/-! ### Signs -/

theorem splitSign_of_isDigit {c : Char} (h : c.isDigit = true) (rest : List Char) :
    splitSign (c :: rest) = (false, c :: rest) := by
  unfold splitSign
  split
  · next heq =>
    obtain ⟨rfl, -⟩ := List.cons.inj heq
    exact absurd h (by decide)
  · next heq =>
    obtain ⟨rfl, -⟩ := List.cons.inj heq
    exact absurd h (by decide)
  · rfl

/-- What is written for a sign. -/
def signText (negative : Bool) : List Char := if negative then ['-'] else []

theorem splitSign_signText (negative : Bool) (hdigits : ∀ c ∈ digits, c.isDigit = true)
    (hne : digits ≠ []) (rest : List Char) :
    splitSign (signText negative ++ (digits ++ rest)) = (negative, digits ++ rest) := by
  cases negative with
  | true => rfl
  | false =>
    obtain ⟨c, digits, rfl⟩ := List.exists_cons_of_ne_nil hne
    exact splitSign_of_isDigit (hdigits c List.mem_cons_self) _

/-! ### Integers -/

namespace NumberStyle

theorem int_eq (n : Int) : int n = signText (n < 0) ++ Nat.toDigits 10 n.natAbs := by
  rw [int, signText]
  by_cases h : n < 0
  · simp [h]
  · simp [h]

theorem splitSign_int (n : Int) :
    splitSign (int n) = (decide (n < 0), Nat.toDigits 10 n.natAbs) := by
  have hsign := splitSign_signText (decide (n < 0))
    (fun c hc => isDigit_of_mem_toDigits (n := n.natAbs) hc) Nat.toDigits_ne_nil []
  rwa [List.append_nil, ← int_eq] at hsign

theorem signed_natAbs (n : Int) :
    (if decide (n < 0) = true then -(n.natAbs : Int) else n.natAbs) = n := by
  by_cases h : n < 0
  · rw [if_pos (decide_eq_true h)]
    omega
  · rw [if_neg (by simpa using h)]
    omega

/-- An integer is read back. -/
theorem readInt?_int (n : Int) : readInt? (int n) = some n := by
  have hdigits : ((Nat.toDigits 10 n.natAbs).isEmpty ||
      !(Nat.toDigits 10 n.natAbs).all Char.isDigit) = false := by
    have hall : (Nat.toDigits 10 n.natAbs).all Char.isDigit = true :=
      List.all_eq_true.mpr fun _ hc => isDigit_of_mem_toDigits hc
    rw [hall, Bool.not_true, Bool.or_false, List.isEmpty_eq_false_iff]
    exact Nat.toDigits_ne_nil
  rw [readInt?, splitSign_int]
  simp only [hdigits, digitsValue_toDigits, signed_natAbs]
  rfl

theorem int_injective : Function.Injective int := by
  intro m n h
  have hread := readInt?_int m
  rw [h, readInt?_int] at hread
  exact (Option.some.inj hread).symm

end NumberStyle

/-! ### Decimals -/

/-- The number that a decimal stands for apart from its sign. -/
def SignedDecimal.value (d : SignedDecimal) : ℚ := d.digits * 10 ^ d.exponent

/-- A text after which the exponent of a decimal is read as some number. -/
structure IsExponent (tail : List Char) (exponent : Int) : Prop where
  read : readExponent? tail = some (exponent, [])
  head : ∀ c ∈ tail.head?, c.isDigit = false ∧ c ≠ '.'

theorem isExponent_nil : IsExponent [] 0 := ⟨rfl, by simp⟩

theorem spanDigits_append (hdigits : ∀ c ∈ digits, c.isDigit = true)
    (hrest : ∀ c ∈ rest.head?, c.isDigit = false) :
    spanDigits (digits ++ rest) = (digits, rest) :=
  span_append hdigits hrest

theorem isExponent_int {plus : Bool} (hplus : plus = true → 0 ≤ n) :
    IsExponent ('e' :: ((if plus then ['+'] else []) ++ NumberStyle.int n)) n where
  head := by simp
  read := by
    have hsign : splitSign ((if plus then ['+'] else []) ++ NumberStyle.int n) =
        (decide (n < 0), Nat.toDigits 10 n.natAbs) := by
      cases plus with
      | false => exact NumberStyle.splitSign_int n
      | true =>
        have hn : ¬ n < 0 := by
          have := hplus rfl
          omega
        rw [NumberStyle.int, if_neg hn, decide_eq_false hn]
        rfl
    have hspan := spanDigits_append (fun c hc => isDigit_of_mem_toDigits (n := n.natAbs) hc)
      (show ∀ c ∈ ([] : List Char).head?, c.isDigit = false by simp)
    rw [List.append_nil] at hspan
    have hne : (Nat.toDigits 10 n.natAbs).isEmpty = false :=
      List.isEmpty_eq_false_iff.mpr Nat.toDigits_ne_nil
    simp only [readExponent?, hsign, hspan, hne, digitsValue_toDigits, NumberStyle.signed_natAbs]
    rfl

section Read

variable {whole places tail : List Char} {exponent : Int} (negative : Bool)
  (hwhole : ∀ c ∈ whole, c.isDigit = true) (hne : whole ≠ [])

include hwhole hne

/-- A decimal with a point is read. -/
theorem read?_point (hplaces : ∀ c ∈ places, c.isDigit = true) (htail : IsExponent tail exponent) :
    SignedDecimal.read? (signText negative ++ (whole ++ '.' :: (places ++ tail))) =
      some ⟨negative, digitsValue (whole ++ places), exponent - places.length⟩ := by
  have hspan : spanDigits (whole ++ '.' :: (places ++ tail)) = (whole, '.' :: (places ++ tail)) :=
    spanDigits_append hwhole (by simp)
  have hspan' : spanDigits (places ++ tail) = (places, tail) :=
    spanDigits_append hplaces fun c hc => (htail.head c hc).1
  have hempty : whole.isEmpty = false := List.isEmpty_eq_false_iff.mpr hne
  simp only [SignedDecimal.read?, splitSign_signText negative hwhole hne, hspan, hspan', hempty,
    Bool.false_and, htail.read]
  rfl

/-- A decimal without a point is read. -/
theorem read?_whole (htail : IsExponent tail exponent) :
    SignedDecimal.read? (signText negative ++ (whole ++ tail)) =
      some ⟨negative, digitsValue whole, exponent⟩ := by
  have hspan : spanDigits (whole ++ tail) = (whole, tail) :=
    spanDigits_append hwhole fun c hc => (htail.head c hc).1
  have hempty : whole.isEmpty = false := List.isEmpty_eq_false_iff.mpr hne
  simp only [SignedDecimal.read?, splitSign_signText negative hwhole hne, hspan, hempty,
    Bool.false_and, Bool.false_eq_true, if_false]
  split
  · exact absurd rfl (htail.head '.' rfl).2
  · rw [htail.read]
    simp

end Read

/-! ### Doubles -/

namespace NumberStyle

variable (style : NumberStyle) (negative : Bool) {point : Int}

/-- A text spells a number with a sign. -/
def Spells (text : List Char) (negative : Bool) (q : ℚ) : Prop :=
  ∃ d, SignedDecimal.read? text = some d ∧ d.negative = negative ∧ d.value = q

theorem Spells.of_read? {text : List Char} {negative : Bool} {count base : Nat}
    {exponent place : Int} (zeros : Nat)
    (h : SignedDecimal.read? text = some ⟨negative, count, exponent⟩)
    (hcount : count = base * 10 ^ zeros) (hplace : zeros + exponent = place) :
    Spells text negative (base * 10 ^ place) := by
  refine ⟨_, h, rfl, ?_⟩
  rw [SignedDecimal.value, hcount, ← hplace, zpow_add₀ (by norm_num), zpow_natCast, Nat.cast_mul,
    Nat.cast_pow, mul_assoc]
  rfl

theorem isDigit_of_mem_zeros {n : Nat} : ∀ c ∈ List.replicate n '0', c.isDigit = true := by
  intro c hc
  rw [List.eq_of_mem_replicate hc]
  rfl

section Digits

variable (hdigits : ∀ c ∈ digits, c.isDigit = true) (hne : digits ≠ [])
include hdigits hne

/-- Digits with the point in its place spell what they count. -/
theorem spells_positional :
    Spells (signText negative ++ style.writePositional digits point) negative
      (digitsValue digits * 10 ^ (point - digits.length)) := by
  unfold writePositional
  split
  next hpoint =>
    -- the number is smaller than one, and zeros fill up what is missing behind the point
    have hread := read?_point negative (show ∀ c ∈ ['0'], c.isDigit = true by simp) (by simp)
      (List.forall_mem_append.mpr ⟨isDigit_of_mem_zeros (n := (-point).toNat), hdigits⟩)
      isExponent_nil
    rw [List.append_nil] at hread
    refine .of_read? 0 hread ?_ ?_
    · rw [← List.append_assoc, ← List.replicate_one, ← List.replicate_add,
        digitsValue_zeros_append, pow_zero, Nat.mul_one]
    · rw [List.length_append, List.length_replicate]
      omega
  next hpoint =>
    split
    next hinside =>
      have hwhole : digits.take point.toNat ≠ [] := by
        rw [Ne, List.take_eq_nil_iff]
        rintro (h | h)
        · omega
        · exact hne h
      have hread := read?_point negative (fun c hc => hdigits c (List.mem_of_mem_take hc)) hwhole
        (fun c hc => hdigits c (List.mem_of_mem_drop (i := point.toNat) hc)) isExponent_nil
      rw [List.append_nil] at hread
      refine .of_read? 0 hread ?_ ?_
      · rw [List.take_append_drop, pow_zero, Nat.mul_one]
      · rw [List.length_drop]
        omega
    next hbehind =>
      have hfilled : ∀ c ∈ digits ++ List.replicate (point.toNat - digits.length) '0',
          c.isDigit = true :=
        List.forall_mem_append.mpr ⟨hdigits, isDigit_of_mem_zeros⟩
      have hne' := List.append_ne_nil_of_left_ne_nil hne
        (List.replicate (point.toNat - digits.length) '0')
      cases style.wholeMark with
      | false =>
        refine .of_read? _ (read?_whole negative hfilled hne' isExponent_nil)
          (digitsValue_append_zeros _ _) ?_
        omega
      | true =>
        have hread := read?_point negative hfilled hne' (show ∀ c ∈ ['0'], c.isDigit = true by simp)
          isExponent_nil
        refine .of_read? (point.toNat - digits.length + 1) hread ?_ ?_
        · rw [List.append_assoc, ← List.replicate_one, ← List.replicate_add,
            digitsValue_append_zeros]
        · rw [List.length_singleton]
          omega

/-- Digits with an exponent spell what they count. -/
theorem spells_exponent :
    Spells (signText negative ++ style.writeExponent digits point) negative
      (digitsValue digits * 10 ^ (point - digits.length)) := by
  have htail : IsExponent ('e' :: ((if style.plus && point - 1 > 0 then ['+'] else []) ++
      int (point - 1))) (point - 1) :=
    isExponent_int fun h => by
      simp only [Bool.and_eq_true, decide_eq_true_eq] at h
      omega
  rw [writeExponent.eq_def, List.append_assoc]
  match digits, hne with
  | [d], _ =>
    have hread := read?_whole negative hdigits (by simp) htail
    refine .of_read? 0 hread ?_ ?_
    · rw [pow_zero, Nat.mul_one]
    · rw [List.length_singleton]
      omega
  | d :: e :: ds, _ =>
    obtain ⟨hd, hds⟩ := List.forall_mem_cons.mp hdigits
    have hread := read?_point negative (show ∀ c ∈ [d], c.isDigit = true by simpa using hd)
      (by simp) hds htail
    refine .of_read? 0 hread ?_ ?_
    · rw [List.singleton_append, pow_zero, Nat.mul_one]
    · simp only [List.length_cons]
      omega

end Digits

theorem isDigit_of_mem_digitText {d : Decimal} {c : Char} (h : c ∈ d.digitText) :
    c.isDigit = true :=
  isDigit_of_mem_toDigits h

/-- How many digits of the shortest decimal stand before the point. -/
def shortestPoint (x : Double) : Int := x.shortest.digitText.length + x.shortest.exponent

/-- A double is written as zero, positionally or with an exponent. -/
theorem write_cases (x : Double) :
    x.rank = 0 ∧ style.write x =
      signText x.negative ++ (['0'] ++ if style.wholeMark then ['.', '0'] else []) ∨
    style.write x =
      signText x.negative ++ style.writePositional x.shortest.digitText (shortestPoint x) ∨
    style.write x =
      signText x.negative ++ style.writeExponent x.shortest.digitText (shortestPoint x) := by
  rw [write.eq_def]
  by_cases hrank : x.rank = 0
  · exact .inl ⟨hrank, if_pos hrank⟩
  · rw [if_neg hrank]
    exact .inr ((ite_eq_or_eq _ _ _).imp (congrArg (signText x.negative ++ ·))
      (congrArg (signText x.negative ++ ·)))

/-- A double is written as a text of its shortest decimal. -/
theorem spells_write (x : Double) : Spells (style.write x) x.negative x.shortest.value := by
  have hdigits (c : Char) (hc : c ∈ x.shortest.digitText) : c.isDigit = true :=
    isDigit_of_mem_digitText hc
  have hvalue : x.shortest.value = digitsValue x.shortest.digitText *
      10 ^ (shortestPoint x - x.shortest.digitText.length) := by
    rw [shortestPoint, Decimal.digitText, digitsValue_toDigits, add_sub_cancel_left, Decimal.value]
  obtain ⟨hrank, hwritten⟩ | hwritten | hwritten := style.write_cases x
  · have hzero : ∀ c ∈ ['0'], c.isDigit = true := by simp
    rw [hwritten, Double.shortest_of_rank_eq_zero hrank]
    cases style.wholeMark with
    | false =>
      exact .of_read? 0 (read?_whole x.negative hzero (by simp) isExponent_nil) rfl rfl
    | true =>
      exact .of_read? 1
        (read?_point x.negative hzero (by simp) hzero isExponent_nil) rfl rfl
  · rw [hwritten, hvalue]
    exact style.spells_positional x.negative hdigits Nat.toDigits_ne_nil
  · rw [hwritten, hvalue]
    exact style.spells_exponent x.negative hdigits Nat.toDigits_ne_nil

/-- No two doubles are written alike, in whatever style. -/
theorem write_injective : Function.Injective style.write := by
  intro x y h
  obtain ⟨d, hread, hsign, hvalue⟩ := style.spells_write x
  obtain ⟨d', hread', hsign', hvalue'⟩ := style.spells_write y
  rw [h, hread'] at hread
  obtain rfl := Option.some.inj hread
  have hrank : x.rank = y.rank := by
    have hx := x.readsAs_shortest
    rw [← hvalue, hvalue'] at hx
    exact hx.unique y.readsAs_shortest
  cases x
  cases y
  simp_all

/-! ### Characters of numbers -/

/-- The characters that numbers are written with. -/
def isNumberChar (c : Char) : Bool := c.isDigit || c ∈ ['-', '+', '.', 'e']

theorem isNumberChar_of_isDigit {c : Char} (h : c.isDigit = true) : isNumberChar c = true := by
  rw [isNumberChar, h, Bool.true_or]

theorem int_ne_nil (n : Int) : int n ≠ [] := by
  rw [int_eq]
  exact List.append_ne_nil_of_right_ne_nil _ Nat.toDigits_ne_nil

theorem isDigit_or_of_mem_int {c : Char} (h : c ∈ int n) : c.isDigit = true ∨ c = '-' := by
  rw [int_eq, List.mem_append] at h
  cases h with
  | inl h =>
    unfold signText at h
    split at h
    · exact .inr (List.mem_singleton.mp h)
    · exact absurd h List.not_mem_nil
  | inr h => exact .inl (isDigit_of_mem_toDigits h)

theorem isNumberChar_of_mem_int {c : Char} (h : c ∈ int n) : isNumberChar c = true := by
  obtain h | rfl := isDigit_or_of_mem_int h
  · exact isNumberChar_of_isDigit h
  · rfl

section Digits

variable (hdigits : ∀ c ∈ digits, c.isDigit = true)
include hdigits

theorem isNumberChar_of_mem_positional :
    ∀ c ∈ style.writePositional digits point, isNumberChar c = true := by
  have hdigits' (c : Char) (hc : c ∈ digits) : isNumberChar c = true :=
    isNumberChar_of_isDigit (hdigits c hc)
  have hzeros {count : Nat} (c : Char) (hc : c ∈ List.replicate count '0') :
      isNumberChar c = true :=
    isNumberChar_of_isDigit (isDigit_of_mem_zeros c hc)
  unfold writePositional
  split
  · simp only [List.cons_append, List.forall_mem_cons, List.forall_mem_append]
    exact ⟨rfl, rfl, hzeros, hdigits'⟩
  · split
    · simp only [List.forall_mem_cons, List.forall_mem_append]
      exact ⟨fun c hc => hdigits' c (List.mem_of_mem_take hc), rfl,
        fun c hc => hdigits' c (List.mem_of_mem_drop hc)⟩
    · simp only [List.forall_mem_append]
      refine ⟨⟨hdigits', hzeros⟩, ?_⟩
      cases style.wholeMark <;> simp [isNumberChar]

theorem isNumberChar_of_mem_exponent :
    ∀ c ∈ style.writeExponent digits point, isNumberChar c = true := by
  have hdigits' (c : Char) (hc : c ∈ digits) : isNumberChar c = true :=
    isNumberChar_of_isDigit (hdigits c hc)
  rw [writeExponent.eq_def]
  simp only [List.forall_mem_append, List.forall_mem_cons]
  refine ⟨⟨?_, rfl, ?_⟩, fun c hc => isNumberChar_of_mem_int hc⟩
  · match digits, hdigits' with
    | [], _ => simp
    | [d], h => exact h
    | d :: e :: ds, h =>
      obtain ⟨hd, hds⟩ := List.forall_mem_cons.mp h
      exact List.forall_mem_cons.mpr ⟨hd, List.forall_mem_cons.mpr ⟨rfl, hds⟩⟩
  · split <;> simp [isNumberChar]

end Digits

theorem isNumberChar_of_mem_write (x : Double) :
    ∀ c ∈ style.write x, isNumberChar c = true := by
  have hsign : ∀ c ∈ signText x.negative, isNumberChar c = true := by
    cases x.negative <;> simp [signText, isNumberChar]
  have hdigits (c : Char) (hc : c ∈ x.shortest.digitText) : c.isDigit = true :=
    isDigit_of_mem_digitText hc
  obtain ⟨-, hwritten⟩ | hwritten | hwritten := style.write_cases x
  · rw [hwritten, List.forall_mem_append]
    refine ⟨hsign, ?_⟩
    cases style.wholeMark <;> simp [isNumberChar]
  · rw [hwritten, List.forall_mem_append]
    exact ⟨hsign, style.isNumberChar_of_mem_positional hdigits⟩
  · rw [hwritten, List.forall_mem_append]
    exact ⟨hsign, style.isNumberChar_of_mem_exponent hdigits⟩

/-- Where whole numbers are marked, a double has a point or an exponent. -/
theorem exists_mem_write (hmark : style.wholeMark = true) (x : Double) :
    ∃ c ∈ style.write x, c = '.' ∨ c = 'e' := by
  obtain ⟨-, hwritten⟩ | hwritten | hwritten := style.write_cases x
  · refine ⟨'.', ?_, .inl rfl⟩
    simp [hwritten, hmark]
  · refine ⟨'.', ?_, .inl rfl⟩
    rw [hwritten, writePositional, if_pos hmark]
    refine List.mem_append_right _ ?_
    split
    · simp
    · split <;> simp
  · refine ⟨'e', ?_, .inr rfl⟩
    rw [hwritten, writeExponent.eq_def]
    simp

/-- Where whole numbers are marked, no double is written like an integer. -/
theorem int_ne_write (hmark : style.wholeMark = true) (n : Int) (x : Double) :
    int n ≠ style.write x := by
  intro h
  obtain ⟨c, hc, hsign⟩ := style.exists_mem_write hmark x
  rw [← h] at hc
  obtain rfl | rfl := hsign <;> obtain hdigit | heq := isDigit_or_of_mem_int hc
  · exact absurd hdigit (by decide)
  · exact absurd heq (by decide)
  · exact absurd hdigit (by decide)
  · exact absurd heq (by decide)

theorem write_ne_nil (x : Double) : style.write x ≠ [] := by
  intro h
  obtain ⟨d, hread, -, -⟩ := style.spells_write x
  rw [h] at hread
  exact nomatch hread

end NumberStyle

end Rollout
