import Mathlib.Computability.Language
import Rollout.Name
import Rollout.Proofs.Text

/-!
# Labels

A name is a label, or labels with dots between them, and the checks of names differ only in the
length that they allow. The labels are the texts of the regular expression
`[a-z0-9]([-a-z0-9]*[a-z0-9])?`, and labels with dots between them those of the expression `L(\.L)*`
in which `L` stands for it. Nothing is reported about a name just if it is a label that is not too
long.
-/

namespace Rollout.Name

open Computability

/-- A small letter or a digit, of ASCII: the class `[a-z0-9]`. -/
def IsAlnum (c : Char) : Prop := ('a' ≤ c ∧ c ≤ 'z') ∨ ('0' ≤ c ∧ c ≤ '9')

/-- A character of the class `[-a-z0-9]`. -/
def IsInner (c : Char) : Prop := c = '-' ∨ IsAlnum c

/-- A label: at least one character, all of them out of `[-a-z0-9]`, and no hyphen at an end. -/
structure IsLabel (s : List Char) : Prop where
  ne_nil : s ≠ []
  allowed : ∀ c ∈ s, IsInner c
  first : s.head? ≠ some '-'
  last : s.getLast? ≠ some '-'

/-- The texts of one character out of a class. -/
def oneOf (p : Char → Prop) : Language Char := {s | ∃ c, p c ∧ s = [c]}

/-- The texts of the regular expression `[a-z0-9]([-a-z0-9]*[a-z0-9])?`. -/
def labels : Language Char := oneOf IsAlnum * (1 + (oneOf IsInner)∗ * oneOf IsAlnum)

/-- The texts of the regular expression `L(\.L)*`, in which `L` stands for a label. -/
def dottedLabels : Language Char := labels * (oneOf (· = '.') * labels)∗

variable {c : Char} {s : List Char} {p : Char → Prop}

/-! ### Characters -/

theorem isLabelEdge_iff : isLabelEdge c = true ↔ IsAlnum c := by
  have hlower : c.isLower = true ↔ 'a' ≤ c ∧ c ≤ 'z' :=
    Bool.and_eq_true_iff.trans (and_congr decide_eq_true_iff decide_eq_true_iff)
  have hdigit : c.isDigit = true ↔ '0' ≤ c ∧ c ≤ '9' :=
    Bool.and_eq_true_iff.trans (and_congr decide_eq_true_iff decide_eq_true_iff)
  rw [isLabelEdge, Bool.or_eq_true, hlower, hdigit, IsAlnum]

theorem isLabelChar_iff : isLabelChar c = true ↔ IsInner c := by
  simp [isLabelChar, IsInner, isLabelEdge_iff, or_comm]

theorem isAlnum_iff : IsAlnum c ↔ IsInner c ∧ c ≠ '-' := by
  have hhyphen : ¬ IsAlnum '-' := by simp [← isLabelEdge_iff]; decide
  constructor
  · intro hc
    exact ⟨.inr hc, fun h => hhyphen (h ▸ hc)⟩
  · rintro ⟨rfl | hc, hne⟩
    · exact absurd rfl hne
    · exact hc

theorem dot_notMem_of_isLabel (h : IsLabel s) : '.' ∉ s := by
  intro hmem
  obtain hdot | hdot := h.allowed '.' hmem
  · exact absurd hdot (by decide)
  · rw [← isLabelEdge_iff] at hdot
    exact absurd hdot (by decide)

/-! ### Labels -/

/-- A label begins and ends with a letter or a digit. -/
theorem isLabel_cons_iff : IsLabel (c :: s) ↔
    IsAlnum c ∧ (∀ d ∈ s, IsInner d) ∧ ∀ d ∈ (c :: s).getLast?, IsAlnum d := by
  constructor
  · rintro ⟨-, hall, hfirst, hlast⟩
    obtain ⟨hc, hs⟩ := List.forall_mem_cons.mp hall
    refine ⟨isAlnum_iff.mpr ⟨hc, fun h => hfirst (congrArg some h)⟩, hs, fun d hd => ?_⟩
    exact isAlnum_iff.mpr ⟨hall d (List.mem_of_getLast? hd), fun h => hlast (h ▸ hd)⟩
  · rintro ⟨hc, hs, hlast⟩
    refine ⟨List.cons_ne_nil c s, List.forall_mem_cons.mpr ⟨.inr hc, hs⟩, fun h => ?_, fun h => ?_⟩
    · exact (isAlnum_iff.mp hc).2 (Option.some.inj h)
    · exact (isAlnum_iff.mp (hlast '-' h)).2 rfl

theorem isLabelOf_iff : isLabelOf s = true ↔ IsLabel s := by
  cases s with
  | nil => exact ⟨nofun, fun h => absurd rfl h.ne_nil⟩
  | cons c s =>
    obtain ⟨d, hd⟩ : ∃ d, (c :: s).getLast? = some d := ⟨_, List.getLast?_cons⟩
    rw [isLabel_cons_iff, isLabelOf, hd]
    simp [isLabelEdge_iff, isLabelChar_iff, and_assoc]

/-! ### Regular expressions -/

theorem mem_kstar_oneOf_iff : s ∈ (oneOf p)∗ ↔ ∀ c ∈ s, p c := by
  rw [Language.mem_kstar]
  constructor
  · rintro ⟨pieces, rfl, hpieces⟩ c hc
    obtain ⟨piece, hpiece, hmem⟩ := List.mem_flatten.mp hc
    obtain ⟨d, hd, rfl⟩ := hpieces piece hpiece
    exact List.mem_singleton.mp hmem ▸ hd
  · intro h
    refine ⟨s.map ([·]), (List.flatMap_singleton' s).symm, List.forall_mem_map.mpr fun c hc => ?_⟩
    exact ⟨c, h c hc, rfl⟩

theorem mem_labels_iff : s ∈ labels ↔ IsLabel s := by
  rw [labels, Language.mem_mul]
  constructor
  · rintro ⟨_, ⟨c, hc, rfl⟩, rest, hrest, rfl⟩
    rw [List.singleton_append, isLabel_cons_iff]
    obtain hnil | hend := (Language.mem_add _ _ _).mp hrest
    · obtain rfl := (Language.mem_one _).mp hnil
      exact ⟨hc, nofun, fun d hd => Option.some.inj hd ▸ hc⟩
    · obtain ⟨inner, hinner, _, ⟨d, hd, rfl⟩, rfl⟩ := Language.mem_mul.mp hend
      rw [mem_kstar_oneOf_iff] at hinner
      refine ⟨hc, List.forall_mem_append.mpr ⟨hinner, List.forall_mem_singleton.mpr (.inr hd)⟩, ?_⟩
      rw [← List.cons_append, List.getLast?_concat]
      exact fun e he => Option.some.inj he ▸ hd
  · intro h
    obtain ⟨c, rest, rfl⟩ := List.exists_cons_of_ne_nil h.ne_nil
    obtain ⟨hc, hrest, hlast⟩ := isLabel_cons_iff.mp h
    refine ⟨[c], ⟨c, hc, rfl⟩, rest, (Language.mem_add _ _ _).mpr ?_, rfl⟩
    obtain rfl | ⟨inner, d, rfl⟩ := List.eq_nil_or_concat rest
    · exact .inl Language.nil_mem_one
    · rw [List.concat_eq_append] at hrest hlast ⊢
      rw [← List.cons_append, List.getLast?_concat] at hlast
      refine .inr (Language.append_mem_mul ?_ ⟨d, hlast d rfl, rfl⟩)
      exact mem_kstar_oneOf_iff.mpr (List.forall_mem_append.mp hrest).1

/-! ### Labels between dots -/

theorem intercalate_dot (l : List Char) (ls : List (List Char)) :
    ['.'].intercalate (l :: ls) = l ++ (ls.map ('.' :: ·)).flatten := by
  induction ls generalizing l with
  | nil => simp
  | cons m ls ih => rw [List.intercalate_cons_cons, ih, List.append_assoc]; rfl

/-- Repeated, a dot and a label make up labels that follow one another behind dots. -/
theorem mem_kstar_dot_labels_iff : s ∈ (oneOf (· = '.') * labels)∗ ↔
    ∃ ls : List (List Char), (∀ l ∈ ls, IsLabel l) ∧ s = (ls.map ('.' :: ·)).flatten := by
  rw [Language.mem_kstar]
  constructor
  · rintro ⟨pieces, rfl, hpieces⟩
    induction pieces with
    | nil => exact ⟨[], nofun, rfl⟩
    | cons piece pieces ih =>
      obtain ⟨hpiece, hrest⟩ := List.forall_mem_cons.mp hpieces
      obtain ⟨ls, hls, heq⟩ := ih hrest
      obtain ⟨_, ⟨_, rfl, rfl⟩, l, hl, rfl⟩ := Language.mem_mul.mp hpiece
      exact ⟨l :: ls, List.forall_mem_cons.mpr ⟨mem_labels_iff.mp hl, hls⟩,
        congrArg (['.'] ++ l ++ ·) heq⟩
  · rintro ⟨ls, hls, rfl⟩
    have hdot : ['.'] ∈ oneOf (· = '.') := ⟨'.', rfl, rfl⟩
    refine ⟨ls.map ('.' :: ·), rfl, List.forall_mem_map.mpr fun l hl => ?_⟩
    exact Language.append_mem_mul hdot (mem_labels_iff.mpr (hls l hl))

/-- A text belongs to labels with dots between them just if all parts between dots are labels. -/
theorem mem_dottedLabels_iff : s ∈ dottedLabels ↔ ∀ part ∈ s.splitOn '.', IsLabel part := by
  rw [dottedLabels, Language.mem_mul]
  constructor
  · rintro ⟨l, hl, rest, hrest, rfl⟩
    obtain ⟨ls, hls, rfl⟩ := mem_kstar_dot_labels_iff.mp hrest
    have hall : ∀ part ∈ l :: ls, IsLabel part :=
      List.forall_mem_cons.mpr ⟨mem_labels_iff.mp hl, hls⟩
    -- no label holds a dot, so the labels are the parts between dots
    rwa [← intercalate_dot, List.splitOn_intercalate '.'
      (fun part hpart => dot_notMem_of_isLabel (hall part hpart)) (List.cons_ne_nil l ls)]
  · intro h
    obtain ⟨l, ls, hparts⟩ := List.exists_cons_of_ne_nil (List.splitOn_ne_nil '.' s)
    rw [hparts] at h
    obtain ⟨hl, hls⟩ := List.forall_mem_cons.mp h
    refine ⟨l, mem_labels_iff.mpr hl, _, mem_kstar_dot_labels_iff.mpr ⟨ls, hls, rfl⟩, ?_⟩
    rw [← intercalate_dot, ← hparts, List.intercalate_splitOn]

/-! ### The checks -/

theorem isLabel_iff {s : String} : isLabel s = true ↔ IsLabel s.toList := isLabelOf_iff

theorem all_partsOf_iff : (Text.partsOf '.' s).all isLabelOf = true ↔
    ∀ part ∈ s.splitOn '.', IsLabel part := by
  rw [Text.partsOf_eq_splitOn, List.all_eq_true]
  simp only [isLabelOf_iff]

/-- Nothing is reported about a label that is not too long, and about nothing else. -/
theorem problems_eq_nil_iff (what s : String) (max : Nat) :
    problems what s max = [] ↔ IsLabel s.toList ∧ s.utf8ByteSize ≤ max := by
  unfold problems
  split
  · rename_i hempty
    refine iff_of_false (List.cons_ne_nil _ _) fun h => h.1.ne_nil ?_
    rw [String.isEmpty_iff.mp hempty]
    rfl
  · rw [List.append_eq_nil_iff, ite_eq_right_iff, ite_eq_left_iff, isLabel_iff, and_comm]
    simp [Text.byteLength]

/-- The checks of names and of their parts agree on what a label is, and differ in the lengths that
they allow. Nothing is reported about a label that is not too long. The labels are the texts of one
regular expression, and the texts with labels alone between their dots those of the other. -/
theorem checks_read_labels (s : String) :
    (isValid s = true ↔ IsLabel s.toList ∧ s.utf8ByteSize ≤ 253) ∧
      (isValidLabel s = true ↔ IsLabel s.toList ∧ s.utf8ByteSize ≤ 63) ∧
      (isValidQualified s = true ↔
        s.utf8ByteSize ≤ 253 ∧ ∀ part ∈ s.toList.splitOn '.', IsLabel part) ∧
      (∀ what max, problems what s max = [] ↔ IsLabel s.toList ∧ s.utf8ByteSize ≤ max) ∧
      (s.toList ∈ labels ↔ IsLabel s.toList) ∧
      (s.toList ∈ dottedLabels ↔ ∀ part ∈ s.toList.splitOn '.', IsLabel part) := by
  refine ⟨?_, ?_, ?_, fun what max => problems_eq_nil_iff what s max, mem_labels_iff,
    mem_dottedLabels_iff⟩
  · rw [isValid, Bool.and_eq_true, decide_eq_true_iff, isLabel_iff, and_comm]
    rfl
  · rw [isValidLabel, Bool.and_eq_true, decide_eq_true_iff, isLabel_iff, and_comm]
    rfl
  · rw [isValidQualified, Bool.and_eq_true, decide_eq_true_iff, all_partsOf_iff]
    rfl

end Rollout.Name
