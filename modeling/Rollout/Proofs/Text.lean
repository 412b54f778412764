import Mathlib.Data.List.Infix
import Rollout.Text.Basic
import Rollout.Text.Split

/-!
# Parts of a text

Cutting a text at a separator and joining the parts by it undo each other. A line feed ends a
line whatever follows it, and trimming takes only from the ends. Replacing works from the left,
one occurrence or one character at a time. A text stands inside another one if something before
it and something after it make up the other, and at an end of it if there is nothing on that side.

The classes of ASCII letters are told by the numbers of their characters, as are the characters
that are no blanks.
-/

namespace Rollout.Text

/-! ### Letters and blanks -/

section Character

variable {c : Char}

theorem isUpper_iff : c.isUpper = true ↔ 65 ≤ c.toNat ∧ c.toNat ≤ 90 := by
  have hrange : c.isUpper = true ↔ 65 ≤ c.val ∧ c.val ≤ 90 := decide_eq_true_iff
  rw [hrange, UInt32.le_iff_toNat_le, UInt32.le_iff_toNat_le]
  rfl

theorem isLower_iff : c.isLower = true ↔ 97 ≤ c.toNat ∧ c.toNat ≤ 122 := by
  have hrange : c.isLower = true ↔ 97 ≤ c.val ∧ c.val ≤ 122 :=
    Bool.and_eq_true_iff.trans (and_congr decide_eq_true_iff decide_eq_true_iff)
  rw [hrange, UInt32.le_iff_toNat_le, UInt32.le_iff_toNat_le]
  rfl

theorem isAlpha_iff : c.isAlpha = true ↔ c.isUpper = true ∨ c.isLower = true :=
  Bool.or_eq_true_iff

theorem isLower_toLower (h : c.isUpper = true) : c.toLower.isLower = true := by
  have hval : c.toLower.val = c.val + 32 := congrArg Char.val (dif_pos (of_decide_eq_true h))
  have hnat := congrArg UInt32.toNat hval
  rw [UInt32.toNat_add] at hnat
  simp only [UInt32.reduceToNat, Char.toNat_val] at hnat
  rw [isUpper_iff] at h
  rw [isLower_iff]
  omega

theorem toLower_of_isUpper_eq_false (h : c.isUpper = false) : c.toLower = c :=
  dif_neg (of_decide_eq_false h)

theorem not_isBlank_of_toNat (hlow : 0x20 < c.toNat) (hhigh : c.toNat < 0x80 ∨ c.toNat = 181) :
    isBlank c = false := by
  simp only [isBlank, Bool.or_eq_false_iff, Bool.and_eq_false_iff, decide_eq_false_iff_not,
    beq_eq_false_iff_ne]
  omega

end Character

/-! ### Separators -/

variable {sep : Char}

theorem partsOf_cons_self (s : List Char) : partsOf sep (sep :: s) = [] :: partsOf sep s := by
  simp [partsOf]

/-- A character other than the separator joins the first part of what follows it. -/
theorem partsOf_cons_of_ne {c : Char} (h : c ≠ sep) {s w : List Char} {ws : List (List Char)}
    (hs : partsOf sep s = w :: ws) : partsOf sep (c :: s) = (c :: w) :: ws := by
  simp [partsOf, h, hs]

theorem partsOf_of_notMem {s : List Char} (h : sep ∉ s) : partsOf sep s = [s] := by
  induction s with
  | nil => rfl
  | cons c cs ih =>
    rw [List.mem_cons, not_or] at h
    obtain ⟨hc, hcs⟩ := h
    exact partsOf_cons_of_ne (Ne.symm hc) (ih hcs)

/-- A first part without the separator is cut off where the separator follows it. -/
theorem partsOf_append_cons {p : List Char} (h : sep ∉ p) (s : List Char) :
    partsOf sep (p ++ sep :: s) = p :: partsOf sep s := by
  induction p with
  | nil => exact partsOf_cons_self s
  | cons c cs ih =>
    rw [List.mem_cons, not_or] at h
    obtain ⟨hc, hcs⟩ := h
    exact partsOf_cons_of_ne (Ne.symm hc) (ih hcs)

/-- What stands before a separator is cut apart from what follows it. -/
theorem partsOf_append_sep (p s : List Char) :
    partsOf sep (p ++ sep :: s) = partsOf sep p ++ partsOf sep s := by
  induction p with
  | nil => exact partsOf_cons_self s
  | cons c cs ih =>
    by_cases hc : c = sep
    · rw [hc, List.cons_append, partsOf_cons_self, partsOf_cons_self, ih, List.cons_append]
    · obtain ⟨w, ws, hw⟩ := List.exists_cons_of_ne_nil (partsOf_ne_nil sep cs)
      rw [hw, List.cons_append] at ih
      rw [List.cons_append, partsOf_cons_of_ne hc hw, partsOf_cons_of_ne hc ih, List.cons_append]

/-- A text without the separator becomes part of the last part before it. -/
theorem partsOf_append_of_notMem {b : List Char} (h : sep ∉ b) (a : List Char) :
    ∃ before w, partsOf sep a = before ++ [w] ∧ partsOf sep (a ++ b) = before ++ [w ++ b] := by
  induction a with
  | nil => exact ⟨[], [], rfl, partsOf_of_notMem h⟩
  | cons c cs ih =>
    obtain ⟨before, w, hcs, happend⟩ := ih
    by_cases hc : c = sep
    · subst hc
      refine ⟨[] :: before, w, ?_, ?_⟩
      · rw [partsOf_cons_self, hcs, List.cons_append]
      · rw [List.cons_append, partsOf_cons_self, happend, List.cons_append]
    · cases before with
      | nil =>
        exact ⟨[], c :: w, partsOf_cons_of_ne hc hcs, partsOf_cons_of_ne hc happend⟩
      | cons v vs =>
        exact ⟨(c :: v) :: vs, w, partsOf_cons_of_ne hc hcs, partsOf_cons_of_ne hc happend⟩

/-- A text without the separator becomes part of the first part after it. -/
theorem partsOf_append_left {p : List Char} (h : sep ∉ p) {s w : List Char} {ws : List (List Char)}
    (hs : partsOf sep s = w :: ws) : partsOf sep (p ++ s) = (p ++ w) :: ws := by
  induction p with
  | nil => exact hs
  | cons c cs ih =>
    rw [List.mem_cons, not_or] at h
    exact partsOf_cons_of_ne (Ne.symm h.1) (ih h.2)

/-- Where no character but the separator is made into it, the parts are changed one by one. -/
theorem partsOf_map {f : Char → Char} (hf : ∀ c, f c = sep ↔ c = sep) (s : List Char) :
    partsOf sep (s.map f) = (partsOf sep s).map (List.map f) := by
  induction s with
  | nil => rfl
  | cons c cs ih =>
    by_cases hc : c = sep
    · rw [List.map_cons, (hf c).mpr hc, hc, partsOf_cons_self, partsOf_cons_self, ih]
      rfl
    · obtain ⟨w, ws, hw⟩ := List.exists_cons_of_ne_nil (partsOf_ne_nil sep cs)
      rw [hw] at ih
      rw [List.map_cons, partsOf_cons_of_ne (fun h => hc ((hf c).mp h)) ih,
        partsOf_cons_of_ne hc hw]
      rfl

/-- Joining the parts gives back the text that was cut. -/
theorem intercalate_partsOf (s : List Char) : [sep].intercalate (partsOf sep s) = s := by
  induction s with
  | nil => rfl
  | cons c cs ih =>
    obtain ⟨w, ws, hw⟩ := List.exists_cons_of_ne_nil (partsOf_ne_nil sep cs)
    rw [hw] at ih
    by_cases hc : c = sep
    · subst hc
      rw [partsOf_cons_self, hw, List.intercalate_cons_cons, ih]
      rfl
    · rw [partsOf_cons_of_ne hc hw]
      cases ws with
      | nil => simpa using ih
      | cons v vs =>
        rw [List.intercalate_cons_cons] at ih ⊢
        rw [List.cons_append, List.cons_append, ih]

theorem sep_notMem_of_mem_partsOf {s p : List Char} (hp : p ∈ partsOf sep s) : sep ∉ p := by
  induction s generalizing p with
  | nil =>
    obtain rfl : p = [] := by simpa [partsOf] using hp
    exact List.not_mem_nil
  | cons c cs ih =>
    by_cases hc : c = sep
    · subst hc
      rw [partsOf_cons_self] at hp
      rcases List.mem_cons.mp hp with rfl | hp
      · exact List.not_mem_nil
      · exact ih hp
    · obtain ⟨w, ws, hw⟩ := List.exists_cons_of_ne_nil (partsOf_ne_nil sep cs)
      rw [partsOf_cons_of_ne hc hw] at hp
      rcases List.mem_cons.mp hp with rfl | hp
      · rw [List.mem_cons, not_or]
        exact ⟨Ne.symm hc, ih (hw ▸ List.mem_cons_self)⟩
      · exact ih (hw ▸ List.mem_cons_of_mem w hp)

/-- Cutting gives back the parts that were joined. -/
theorem partsOf_intercalate {ps : List (List Char)} (hne : ps ≠ [])
    (h : ∀ p ∈ ps, sep ∉ p) : partsOf sep ([sep].intercalate ps) = ps := by
  induction ps with
  | nil => exact absurd rfl hne
  | cons p rest ih =>
    have hp := h p List.mem_cons_self
    cases rest with
    | nil => simpa using partsOf_of_notMem hp
    | cons q qs =>
      have hrest := ih (List.cons_ne_nil q qs) fun r hr => h r (List.mem_cons_of_mem p hr)
      rw [List.intercalate_cons_cons, List.append_assoc, List.singleton_append,
        partsOf_append_cons hp, hrest]

theorem partsOf_eq_splitOn (sep : Char) (s : List Char) : partsOf sep s = s.splitOn sep := by
  have hsplit := List.splitOn_intercalate sep
    (fun p hp => sep_notMem_of_mem_partsOf hp) (partsOf_ne_nil sep s)
  rw [← hsplit, intercalate_partsOf]

/-! ### Lines -/

theorem dropReturn_of_getLast? {line : List Char} (h : line.getLast? ≠ some '\r') :
    dropReturn line = line := by
  rw [List.getLast?_eq_head?_reverse] at h
  unfold dropReturn
  split
  · next rest hrest =>
    rw [hrest] at h
    exact absurd rfl h
  · rfl

theorem dropReturn_subset (line : List Char) : dropReturn line ⊆ line := by
  intro c hc
  unfold dropReturn at hc
  split at hc
  · next rest hrest =>
    rw [← List.mem_reverse, hrest]
    exact List.mem_cons_of_mem _ (List.mem_reverse.mp hc)
  · exact hc

theorem exists_dropReturn_cons {c : Char} (h : c ≠ '\r') (s : List Char) :
    ∃ t, dropReturn (c :: s) = c :: t := by
  unfold dropReturn
  split
  · next rest hrest =>
    rw [List.reverse_cons, List.append_eq_cons_iff] at hrest
    rcases hrest with ⟨-, hrest⟩ | ⟨before, -, rfl⟩
    · exact absurd (List.cons.inj hrest).1 h
    · exact ⟨before.reverse, by rw [List.reverse_append]; rfl⟩
  · exact ⟨s, rfl⟩

/-- The lines before a line feed are those of what stands there, also an empty last one. -/
theorem linesOf_append_cons (a b : List Char) :
    linesOf (a ++ '\n' :: b) = (partsOf '\n' a).map dropReturn ++ linesOf b := by
  have hne : partsOf '\n' b ≠ [] := partsOf_ne_nil _ _
  have hlast : (partsOf '\n' a ++ partsOf '\n' b).getLast? = (partsOf '\n' b).getLast? := by
    rw [List.getLast?_append, List.getLast?_eq_some_getLast hne, Option.some_or]
  simp only [linesOf, partsOf_append_sep, List.dropLast_append_of_ne_nil hne, List.map_append,
    List.append_assoc, List.getLastD_eq_getLast?, hlast]

/-- A line that is ended. -/
theorem linesOf_line {a : List Char} (h : '\n' ∉ a) (b : List Char) :
    linesOf (a ++ '\n' :: b) = dropReturn a :: linesOf b := by
  rw [linesOf_append_cons, partsOf_of_notMem h, List.map_singleton, List.singleton_append]

theorem newline_notMem_of_mem_linesOf {s line : List Char} (h : line ∈ linesOf s) :
    '\n' ∉ line := by
  simp only [linesOf] at h
  rcases List.mem_append.mp h with h | h
  · obtain ⟨piece, hpiece, rfl⟩ := List.mem_map.mp h
    intro hmem
    exact sep_notMem_of_mem_partsOf (List.dropLast_subset _ hpiece)
      (dropReturn_subset piece hmem)
  · split at h
    · exact absurd h List.not_mem_nil
    · rw [List.mem_singleton] at h
      subst h
      rw [List.getLastD_eq_getLast?, List.getLast?_eq_some_getLast (partsOf_ne_nil _ _)]
      exact sep_notMem_of_mem_partsOf (List.getLast_mem _)

/-! ### Blanks at the ends -/

/-- Trimming leaves a text that neither begins nor ends with a blank. -/
theorem trimmed_of_ends {s : List Char} (hfirst : ∀ c ∈ s.head?, isBlank c = false)
    (hlast : ∀ c ∈ s.getLast?, isBlank c = false) : trimmed s = s := by
  have hdrop {t : List Char} (h : ∀ c ∈ t.head?, isBlank c = false) :
      t.dropWhile isBlank = t := by
    cases t with
    | nil => rfl
    | cons c t => exact List.dropWhile_cons_of_neg (by simp [h c rfl])
  rw [List.getLast?_eq_head?_reverse] at hlast
  rw [trimmed, trimLeft, hdrop hfirst, trimRight, hdrop hlast, List.reverse_reverse]

theorem head?_trimmed_cons {c : Char} (h : isBlank c = false) (s : List Char) :
    (trimmed (c :: s)).head? = some c := by
  have hleft : trimLeft (c :: s) = c :: s := List.dropWhile_cons_of_neg (by simp [h])
  rw [trimmed, hleft, trimRight, List.reverse_cons, List.dropWhile_append]
  split
  · rw [List.dropWhile_cons_of_neg (by simp [h])]
    rfl
  · rw [List.reverse_append]
    rfl
theorem trimmed_subset (s : List Char) : trimmed s ⊆ s := by
  intro c hc
  have hright := List.dropWhile_subset _ (List.mem_reverse.mp hc)
  exact List.dropWhile_subset _ (List.mem_reverse.mp hright)

/-! ### The first and the last separator -/

theorem cut_eq_none_iff {s : List Char} : cut sep s = none ↔ sep ∉ s := by
  induction s with
  | nil => simp [cut]
  | cons c s ih =>
    by_cases hc : c = sep
    · simp [cut, hc]
    · simp [cut, hc, ih, Ne.symm hc]

theorem cut_append_cons {a : List Char} (ha : sep ∉ a) (b : List Char) :
    cut sep (a ++ sep :: b) = some (a, b) := by
  induction a with
  | nil => simp [cut]
  | cons c a ih =>
    rw [List.mem_cons, not_or] at ha
    simp [cut, Ne.symm ha.1, ih ha.2]

theorem cutAt_eq_none_iff {s : String} : cutAt sep s = none ↔ sep ∉ s.toList := by
  rw [cutAt, Option.map_eq_none_iff, cut_eq_none_iff]

theorem cutLast_eq_none_iff {s : String} : cutLast sep s = none ↔ sep ∉ s.toList := by
  rw [cutLast, Option.map_eq_none_iff, cut_eq_none_iff, List.mem_reverse]

/-- A text is cut where nothing before a separator is one. -/
theorem cut_eq_some_iff {s a b : List Char} :
    cut sep s = some (a, b) ↔ s = a ++ sep :: b ∧ sep ∉ a := by
  constructor
  · intro h
    have hmem : sep ∈ s := Decidable.not_not.mp fun hnot => by
      rw [cut_eq_none_iff.mpr hnot] at h
      exact nomatch h
    obtain ⟨a', b', rfl, ha'⟩ := List.eq_append_cons_of_mem hmem
    rw [cut_append_cons ha', Option.some.injEq, Prod.mk.injEq] at h
    obtain ⟨rfl, rfl⟩ := h
    exact ⟨rfl, ha'⟩
  · rintro ⟨rfl, ha⟩
    exact cut_append_cons ha b

theorem cutAt_eq_some_iff {s a b : String} :
    cutAt sep s = some (a, b) ↔ s.toList = a.toList ++ sep :: b.toList ∧ sep ∉ a.toList := by
  rw [← cut_eq_some_iff, cutAt, Option.map_eq_some_iff]
  constructor
  · rintro ⟨⟨a', b'⟩, h, hab⟩
    obtain ⟨rfl, rfl⟩ := Prod.mk.inj hab
    rwa [String.toList_ofList, String.toList_ofList]
  · exact fun h => ⟨_, h, by simp⟩

theorem cutLast_eq_some_iff {s a b : String} :
    cutLast sep s = some (a, b) ↔ s.toList = a.toList ++ sep :: b.toList ∧ sep ∉ b.toList := by
  have hreverse : s.toList = a.toList ++ sep :: b.toList ↔
      s.toList.reverse = b.toList.reverse ++ sep :: a.toList.reverse := by
    rw [← List.reverse_inj]
    simp
  rw [hreverse, ← List.mem_reverse, ← cut_eq_some_iff, cutLast, Option.map_eq_some_iff]
  constructor
  · rintro ⟨⟨b', a'⟩, h, hab⟩
    obtain ⟨rfl, rfl⟩ := Prod.mk.inj hab
    simpa using h
  · exact fun h => ⟨_, h, by simp⟩

/-! ### Replacing -/

section Replace

variable {old new : List Char}

theorem replaceFrom_eq_drop (skip : Nat) (s : List Char) :
    replaceFrom old new skip s = replaceFrom old new 0 (s.drop skip) := by
  induction skip generalizing s with
  | zero => rfl
  | succ skip ih =>
    cases s with
    | nil => rfl
    | cons c s => exact ih s

/-- An occurrence at the start is replaced as a whole. -/
theorem replaceFrom_append_self (hold : old ≠ []) (s : List Char) :
    replaceFrom old new 0 (old ++ s) = new ++ replaceFrom old new 0 s := by
  obtain ⟨c, cs, rfl⟩ := List.exists_cons_of_ne_nil hold
  have hprefix : (c :: cs).isPrefixOf (c :: (cs ++ s)) = true :=
    List.isPrefixOf_iff_prefix.mpr ⟨s, rfl⟩
  rw [List.cons_append, replaceFrom, if_pos hprefix, replaceFrom_eq_drop]
  simp

/-- A character that begins no occurrence stays. -/
theorem replaceFrom_cons {c : Char} {s : List Char} (h : ¬ old <+: c :: s) :
    replaceFrom old new 0 (c :: s) = c :: replaceFrom old new 0 s := by
  rw [replaceFrom, if_neg fun hp => h (List.isPrefixOf_iff_prefix.mp hp)]

/-- A text that begins with no occurrence keeps its first character. -/
theorem head?_replaceFrom {s : List Char} (h : ¬ old <+: s) :
    (replaceFrom old new 0 s).head? = s.head? := by
  cases s with
  | nil => rfl
  | cons c s =>
    rw [replaceFrom_cons h]
    rfl

/-- Characters with which no occurrence begins stay. -/
theorem replaceFrom_append {p : List Char} (hold : old ≠ [])
    (hp : ∀ c ∈ p, old.head? ≠ some c) (s : List Char) :
    replaceFrom old new 0 (p ++ s) = p ++ replaceFrom old new 0 s := by
  obtain ⟨d, ds, rfl⟩ := List.exists_cons_of_ne_nil hold
  induction p with
  | nil => rfl
  | cons c p ih =>
    have hc : ¬ d :: ds <+: c :: (p ++ s) := by
      rintro ⟨t, ht⟩
      exact hp c List.mem_cons_self (congrArg some (List.cons.inj ht).1)
    rw [List.cons_append, replaceFrom_cons hc, ih fun e he => hp e (List.mem_cons_of_mem c he),
      List.cons_append]

/-- An occurrence does not reach over a character that is not in it. -/
theorem prefix_append_cons_iff {c : Char} (hc : c ∉ old) {p s : List Char} :
    old <+: p ++ c :: s ↔ old <+: p := by
  induction p generalizing old with
  | nil =>
    cases old with
    | nil => simp
    | cons d old =>
      have hdc : d ≠ c := fun h => hc (h ▸ List.mem_cons_self)
      simp [List.cons_prefix_cons, hdc]
  | cons d p ih =>
    cases old with
    | nil => simp
    | cons e old =>
      rw [List.cons_append, List.cons_prefix_cons, List.cons_prefix_cons,
        ih fun h => hc (List.mem_cons_of_mem e h)]

/-- What stands before a character that is in no occurrence is replaced apart from what
follows. -/
theorem replaceFrom_append_cons {c : Char} (hold : old ≠ []) (hc : c ∉ old) (p s : List Char) :
    replaceFrom old new 0 (p ++ c :: s) =
      replaceFrom old new 0 p ++ c :: replaceFrom old new 0 s := by
  have hlength : 0 < old.length := List.length_pos_iff.mpr hold
  induction hn : p.length using Nat.strongRecOn generalizing p with
  | ind n ih =>
    subst hn
    by_cases hprefix : old <+: p
    · obtain ⟨q, rfl⟩ := hprefix
      rw [List.append_assoc, replaceFrom_append_self hold, replaceFrom_append_self hold,
        ih q.length (by rw [List.length_append]; omega) q rfl, List.append_assoc]
    · have hnext : ¬ old <+: p ++ c :: s := by rwa [prefix_append_cons_iff hc]
      cases p with
      | nil => rw [List.nil_append, replaceFrom_cons hnext, replaceFrom, List.nil_append]
      | cons d p =>
        rw [List.cons_append] at hnext
        rw [replaceFrom_cons hprefix, List.cons_append, replaceFrom_cons hnext,
          ih p.length (Nat.lt_succ_self _) p rfl, List.cons_append]

/-- A part of a text stays if it begins with a character that is in no occurrence and no
occurrence begins in it. -/
theorem infix_replaceFrom {c : Char} {line : List Char} (hc : c ∉ old)
    (hline : ∀ d ∈ line, old.head? ≠ some d) (hold : old ≠ []) {s : List Char}
    (h : c :: line <:+: s) : c :: line <:+: replaceFrom old new 0 s := by
  obtain ⟨before, after, rfl⟩ := h
  refine ⟨replaceFrom old new 0 before, replaceFrom old new 0 after, ?_⟩
  simp only [List.append_assoc, List.cons_append, replaceFrom_append_cons hold hc,
    replaceFrom_append hold hline]

/-- The same holds of the end of a text. -/
theorem suffix_replaceFrom {c : Char} {line : List Char} (hc : c ∉ old)
    (hline : ∀ d ∈ line, old.head? ≠ some d) (hold : old ≠ []) {s : List Char}
    (h : c :: line <:+ s) : c :: line <:+ replaceFrom old new 0 s := by
  obtain ⟨before, rfl⟩ := h
  have hkept : replaceFrom old new 0 line = line := by
    simpa [replaceFrom] using replaceFrom_append hold hline []
  refine ⟨replaceFrom old new 0 before, ?_⟩
  rw [replaceFrom_append_cons hold hc, hkept]

theorem replaceFrom_cons_of_notMem {c : Char} (hold : old ≠ []) (hc : c ∉ old) (s : List Char) :
    replaceFrom old new 0 (c :: s) = c :: replaceFrom old new 0 s :=
  replaceFrom_append_cons hold hc [] s

/-- A part whose first and last characters are in no occurrence is replaced apart from the rest. -/
theorem replaceFrom_infix {c d : Char} {line s : List Char} (hold : old ≠ []) (hc : c ∉ old)
    (hd : d ∉ old) (h : c :: (line ++ [d]) <:+: s) :
    replaceFrom old new 0 (c :: (line ++ [d])) <:+: replaceFrom old new 0 s := by
  obtain ⟨before, after, rfl⟩ := h
  refine ⟨replaceFrom old new 0 before, replaceFrom old new 0 after, ?_⟩
  have hline : replaceFrom old new 0 (line ++ [d]) = replaceFrom old new 0 line ++ [d] :=
    replaceFrom_append_cons hold hd line []
  rw [replaceFrom_cons_of_notMem hold hc, hline]
  simp only [List.append_assoc, List.cons_append, List.nil_append,
    replaceFrom_append_cons hold hc, replaceFrom_append_cons hold hd]

/-- Replacing a character works on each character alone. -/
theorem replaceFrom_char (c : Char) (new s : List Char) :
    replaceFrom [c] new 0 s = s.flatMap fun e => if e = c then new else [e] := by
  induction s with
  | nil => rfl
  | cons e s ih =>
    by_cases he : e = c
    · rw [he, List.flatMap_cons, if_pos rfl, ← ih]
      exact replaceFrom_append_self (List.cons_ne_nil c []) s
    · have hnext : ¬ [c] <+: e :: s := by
        rw [List.cons_prefix_cons]
        exact fun h => he h.1.symm
      rw [replaceFrom_cons hnext, ih, List.flatMap_cons, if_neg he, List.singleton_append]

theorem replaceFrom_singleton (c d : Char) (s : List Char) :
    replaceFrom [c] [d] 0 s = s.map fun e => if e = c then d else e := by
  rw [replaceFrom_char, List.map_eq_flatMap]
  congr 1
  funext e
  split <;> rfl

end Replace

/-! ### Texts inside others -/

theorem hasInside_iff {inner s : List Char} : hasInside inner s = true ↔ inner <:+: s := by
  induction s with
  | nil => simp [hasInside]
  | cons c s ih =>
    rw [hasInside, Bool.or_eq_true, List.isPrefixOf_iff_prefix, ih, List.infix_cons_iff]

theorem contains_iff {s inner : String} : contains s inner = true ↔ inner.toList <:+: s.toList :=
  hasInside_iff

theorem dropStart?_eq_some_iff {start s rest : String} :
    dropStart? start s = some rest ↔ s.toList = start.toList ++ rest.toList := by
  rw [dropStart?, Option.map_eq_some_iff]
  constructor
  · rintro ⟨cs, hcs, rfl⟩
    rw [String.toList_ofList, List.isPrefixOf?_eq_some_iff_append_eq.mp hcs]
  · intro h
    exact ⟨rest.toList, List.isPrefixOf?_eq_some_iff_append_eq.mpr h.symm, String.ofList_toList⟩

theorem dropEnd?_eq_some_iff {ending s rest : String} :
    dropEnd? ending s = some rest ↔ s.toList = rest.toList ++ ending.toList := by
  rw [dropEnd?, Option.map_eq_some_iff]
  constructor
  · rintro ⟨cs, hcs, rfl⟩
    rw [List.isPrefixOf?_eq_some_iff_append_eq] at hcs
    rw [String.toList_ofList, ← List.reverse_inj, ← hcs, List.reverse_append, List.reverse_reverse]
  · intro h
    have hcs : ending.toList.reverse ++ rest.toList.reverse = s.toList.reverse := by
      rw [h, List.reverse_append]
    refine ⟨rest.toList.reverse, List.isPrefixOf?_eq_some_iff_append_eq.mpr hcs, ?_⟩
    rw [List.reverse_reverse, String.ofList_toList]

end Rollout.Text
