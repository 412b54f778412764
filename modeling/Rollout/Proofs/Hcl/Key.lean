import Mathlib.Data.List.Basic
import Rollout.Hcl.Item
import Rollout.Proofs.Text

/-!
# Keys in lower case

The name of an attribute or a block is the key in lower case with underscores between its words.
Nothing but underscores is added, and nothing but capitals, hyphens and dots is replaced, so a name
spells the word that its key spells. A word begins with a capital letter behind a small letter or
a digit, and with the last of several capitals if a small letter follows. Letters and digits are
those of ASCII.
-/

namespace Rollout.Hcl

/-- A word begins at a place within a key: with a capital letter behind a small letter or a digit,
or with one between a capital and a small letter. -/
def WordBeginsAt (key : List Char) (i : Nat) : Prop :=
  0 < i ∧ (∃ c ∈ key[i]?, c.isUpper = true) ∧
    ((∃ p ∈ key[i - 1]?, p.isLower = true ∨ p.isDigit = true) ∨
      (∃ p ∈ key[i - 1]?, p.isUpper = true) ∧ ∃ n ∈ key[i + 1]?, n.isLower = true)

instance (key : List Char) (i : Nat) : Decidable (WordBeginsAt key i) :=
  inferInstanceAs (Decidable (_ ∧ _ ∧ _))

/-- The small letter for a capital one, an underscore for a hyphen or a dot. -/
def smallChar (c : Char) : Char := if c = '-' ∨ c = '.' then '_' else c.toLower

/-- What a character at some place of a key adds to the name. -/
def nameAt (key : List Char) (i : Nat) (c : Char) : List Char :=
  if WordBeginsAt key i then ['_', smallChar c] else [smallChar c]

/-- No capital letter, hyphen or dot. -/
structure IsSmall (c : Char) : Prop where
  notUpper : c.isUpper = false
  ne_hyphen : c ≠ '-'
  ne_dot : c ≠ '.'

/-- The characters that may stand between words and are no part of them. -/
def joints : List Char := ['_', '-', '.']

variable {before after : Option Char} {c : Char}

/-! ### One character -/

/-- A small letter is no other kind of character. -/
theorem isSmall_of_isLower (h : c.isLower = true) : IsSmall c ∧ c ∉ joints := by
  have hjoint : c ∉ joints := by
    intro hc
    obtain rfl | rfl | rfl : c = '_' ∨ c = '-' ∨ c = '.' := by simpa [joints] using hc
    all_goals exact absurd h (by decide)
  have hupper : c.isUpper = false := by
    rw [Text.isLower_iff] at h
    rw [Bool.eq_false_iff, Ne, Text.isUpper_iff]
    omega
  refine ⟨⟨hupper, ?_, ?_⟩, hjoint⟩
  · rintro rfl
    exact hjoint (by decide)
  · rintro rfl
    exact hjoint (by decide)

theorem smallChar_of_isUpper (h : c.isUpper = true) : smallChar c = c.toLower := by
  refine if_neg ?_
  rintro (rfl | rfl)
  · exact absurd h (by decide)
  · exact absurd h (by decide)

theorem smallChar_of_isSmall (h : IsSmall c) : smallChar c = c := by
  rw [smallChar, if_neg (not_or.mpr ⟨h.ne_hyphen, h.ne_dot⟩),
    Text.toLower_of_isUpper_eq_false h.notUpper]

theorem isSmall_underscore : IsSmall '_' := ⟨by decide, by decide, by decide⟩

theorem isSmall_smallChar (c : Char) : IsSmall (smallChar c) := by
  cases hupper : c.isUpper with
  | true =>
    rw [smallChar_of_isUpper hupper]
    exact (isSmall_of_isLower (Text.isLower_toLower hupper)).1
  | false =>
    by_cases hjoint : c = '-' ∨ c = '.'
    · rw [smallChar, if_pos hjoint]
      exact isSmall_underscore
    · have hc : IsSmall c := ⟨hupper, fun h => hjoint (.inl h), fun h => hjoint (.inr h)⟩
      rwa [smallChar_of_isSmall hc]

/-- A character is written as a part of a word, or else as an underscore. -/
theorem filter_smallChar (c : Char) :
    [smallChar c].filter (· ≠ '_') = [c.toLower].filter (· ∉ joints) := by
  cases hupper : c.isUpper with
  | true =>
    have hword := (isSmall_of_isLower (Text.isLower_toLower hupper)).2
    have hne : c.toLower ≠ '_' := fun hc => hword (hc ▸ List.mem_cons_self)
    simp [smallChar_of_isUpper hupper, hword, hne]
  | false =>
    rw [Text.toLower_of_isUpper_eq_false hupper, smallChar, Text.toLower_of_isUpper_eq_false hupper]
    by_cases hjoint : c = '-' ∨ c = '.'
    · obtain rfl | rfl := hjoint <;> decide
    · rw [if_neg hjoint]
      rw [not_or] at hjoint
      simp [joints, List.filter_cons, hjoint]

/-- Only a capital letter with which a word begins brings an underscore of its own. -/
theorem snakeChar_eq : snakeChar before c after =
    if c.isUpper = true ∧ beginsWord before after = true then ['_', smallChar c]
    else [smallChar c] := by
  cases hupper : c.isUpper with
  | true =>
    rw [smallChar_of_isUpper hupper, snakeChar, if_pos hupper]
    simp
  | false =>
    rw [if_neg (by simp), smallChar, Text.toLower_of_isUpper_eq_false hupper, snakeChar,
      if_neg (by simp [hupper])]
    by_cases hjoint : c = '-' ∨ c = '.' <;> simp [hjoint]

theorem exists_snakeChar (before : Option Char) (c : Char) (after : Option Char) :
    snakeChar before c after = ['_', smallChar c] ∨ snakeChar before c after = [smallChar c] := by
  rw [snakeChar_eq]
  split
  · exact .inl rfl
  · exact .inr rfl

/-! ### A key -/

theorem isSmall_of_mem_snakeFrom {s : List Char} (h : c ∈ snakeFrom before s) : IsSmall c := by
  induction s generalizing before with
  | nil => exact absurd h List.not_mem_nil
  | cons d s ih =>
    obtain h | h := List.mem_append.mp h
    · obtain hpiece | hpiece := exists_snakeChar before d s.head?
      · rw [hpiece, List.mem_pair] at h
        obtain rfl | rfl := h
        · exact isSmall_underscore
        · exact isSmall_smallChar d
      · rw [hpiece, List.mem_singleton] at h
        exact h ▸ isSmall_smallChar d
    · exact ih h

/-- Where there is no capital letter, hyphen or dot, nothing changes. -/
theorem snakeFrom_of_isSmall {s : List Char} (h : ∀ c ∈ s, IsSmall c) : snakeFrom before s = s := by
  induction s generalizing before with
  | nil => rfl
  | cons c s ih =>
    obtain ⟨hc, hs⟩ := List.forall_mem_cons.mp h
    rw [snakeFrom, ih hs, snakeChar_eq, if_neg (by simp [hc.notUpper]), smallChar_of_isSmall hc,
      List.singleton_append]

theorem filter_snakeFrom (before : Option Char) (s : List Char) :
    (snakeFrom before s).filter (· ≠ '_') = (s.map Char.toLower).filter (· ∉ joints) := by
  induction s generalizing before with
  | nil => rfl
  | cons c s ih =>
    have hpiece : (snakeChar before c s.head?).filter (· ≠ '_') =
        [c.toLower].filter (· ∉ joints) := by
      rw [← filter_smallChar]
      obtain hpiece | hpiece := exists_snakeChar before c s.head?
      · rw [hpiece, List.filter_cons_of_neg (by simp)]
      · rw [hpiece]
    rw [snakeFrom, List.filter_append, hpiece, ih, ← List.filter_append]
    rfl

/-- Whether a word begins is seen from the characters before and behind. -/
theorem wordBeginsAt_append_cons (s : List Char) (c : Char) (rest : List Char) :
    WordBeginsAt (s ++ c :: rest) s.length ↔
      c.isUpper = true ∧ beginsWord s.getLast? rest.head? = true := by
  obtain rfl | ⟨init, p, rfl⟩ := List.eq_nil_or_concat s
  · simp [WordBeginsAt, beginsWord]
  · have hbefore : (init.concat p ++ c :: rest)[(init.concat p).length - 1]? = some p := by simp
    have hhere : (init.concat p ++ c :: rest)[(init.concat p).length]? = some c := by simp
    have hbehind : (init.concat p ++ c :: rest)[(init.concat p).length + 1]? = rest.head? := by
      rw [List.getElem?_append_right (Nat.le_add_right _ 1), Nat.add_sub_cancel_left,
        List.getElem?_cons_succ, List.head?_eq_getElem?]
    have hafter : (∃ n ∈ rest.head?, n.isLower = true) ↔ rest.head?.any Char.isLower = true :=
      (Option.any_eq_true _ _).symm
    rw [WordBeginsAt, hbefore, hhere, hbehind, hafter]
    simp [beginsWord]

/-- Each character of a key adds what its neighbours call for. -/
theorem snakeFrom_eq_flatten (s rest : List Char) : snakeFrom s.getLast? rest =
    (rest.mapIdx fun i => nameAt (s ++ rest) (s.length + i)).flatten := by
  -- what has been read of the key stays in sight, as a place within the key is told by it
  induction rest generalizing s with
  | nil => rfl
  | cons c rest ih =>
    have hpiece : snakeChar s.getLast? c rest.head? = nameAt (s ++ c :: rest) s.length c := by
      simp only [nameAt, snakeChar_eq, wordBeginsAt_append_cons]
    have hrest := ih (s ++ [c])
    rw [List.getLast?_concat, List.append_assoc, List.singleton_append, List.length_append] at hrest
    rw [snakeFrom, hpiece, hrest, List.mapIdx_cons, List.flatten_cons]
    simp [Nat.add_assoc, Nat.add_comm 1]

/-- The name of a key holds no capital letter, hyphen or dot, and is its own name. Without
underscores it is the key in lower case without underscores, hyphens and dots. Each character of
the key adds itself, as a small letter or an underscore if it is not kept, and behind an underscore
just if a word begins there. -/
theorem snakeCase_spells (key : String) :
    (∀ c ∈ (snakeCase key).toList, c.isUpper = false ∧ c ≠ '-' ∧ c ≠ '.') ∧
      snakeCase (snakeCase key) = snakeCase key ∧
      (snakeCase key).toList.filter (· ≠ '_') =
        key.toLower.toList.filter (· ∉ joints) ∧
      (snakeCase key).toList = (key.toList.mapIdx (nameAt key.toList)).flatten := by
  have hchars : (snakeCase key).toList = snakeFrom none key.toList := String.toList_ofList
  have hsmall : ∀ c ∈ (snakeCase key).toList, IsSmall c := by
    rw [hchars]
    exact fun c => isSmall_of_mem_snakeFrom
  refine ⟨fun c hc => ?_, ?_, ?_, ?_⟩
  · obtain ⟨hupper, hhyphen, hdot⟩ := hsmall c hc
    exact ⟨hupper, hhyphen, hdot⟩
  · rw [snakeCase, snakeFrom_of_isSmall hsmall, String.ofList_toList]
  · have hlower : key.toLower.toList = key.toList.map Char.toLower := String.toList_map
    rw [hchars, hlower, filter_snakeFrom]
  · simpa using hchars.trans (snakeFrom_eq_flatten [] key.toList)

example : snakeCase "targetCPUUtilizationPercentage" = "target_cpu_utilization_percentage" := by
  decide

end Rollout.Hcl
