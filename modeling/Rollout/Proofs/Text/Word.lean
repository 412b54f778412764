import Mathlib.Data.List.TakeWhile
import Rollout.Proofs.Text

/-!
# Words between blanks

The words of a text are its longest runs without blanks. Whatever blanks stand around words
and between them, and however many, the words are the same ones; only between two words there
has to be one. So trimming a text keeps its words, and a text of one word is that word once it
is trimmed.
-/

namespace Rollout.Text

variable {s w : List Char} {ws : List (List Char)} {c : Char}

/-- A word: at least one character, none of them blank. -/
structure IsWord (w : List Char) : Prop where
  ne_nil : w ≠ []
  notBlank : ∀ c ∈ w, isBlank c = false

/-- Words stand in a text in order, with blanks around them and at least one between two. -/
inductive Spaced : List (List Char) → List Char → Prop where
  | nil : Spaced [] []
  | blank {ws : List (List Char)} {s : List Char} {c : Char} (hc : isBlank c = true)
    (h : Spaced ws s) : Spaced ws (c :: s)
  | last {w : List Char} (hw : IsWord w) : Spaced [w] w
  | word {ws : List (List Char)} {w s : List Char} {c : Char} (hw : IsWord w)
    (hc : isBlank c = true) (h : Spaced ws s) : Spaced (w :: ws) (w ++ c :: s)

/-! ### Cutting at blanks -/

theorem isWord_singleton (hc : isBlank c = false) : IsWord [c] :=
  ⟨List.cons_ne_nil c [], List.forall_mem_singleton.mpr hc⟩

theorem IsWord.cons (hc : isBlank c = false) (hw : IsWord w) : IsWord (c :: w) :=
  ⟨List.cons_ne_nil c w, List.forall_mem_cons.mpr ⟨hc, hw.notBlank⟩⟩

theorem wordsOf_cons_of_isBlank (hc : isBlank c = true) (s : List Char) :
    wordsOf (c :: s) = wordsOf s := by
  simp [wordsOf, hc]

/-- A character before a blank is a word of its own. -/
theorem wordsOf_cons_blank {d : Char} (hc : isBlank c = false) (hd : isBlank d = true)
    (s : List Char) : wordsOf (c :: d :: s) = [c] :: wordsOf s := by
  simp [wordsOf, hc, hd]

/-- A character before another one begins its word. -/
theorem wordsOf_cons_cons {d : Char} (hc : isBlank c = false) (hd : isBlank d = false)
    (h : wordsOf (d :: s) = w :: ws) : wordsOf (c :: d :: s) = (c :: w) :: ws := by
  rw [wordsOf.eq_def]
  simp only [hc, hd, h, Bool.false_eq_true, if_false]

theorem wordsOf_of_isWord (hw : IsWord w) : wordsOf w = [w] := by
  induction w with
  | nil => exact absurd rfl hw.ne_nil
  | cons c w ih =>
    obtain ⟨hc, hrest⟩ := List.forall_mem_cons.mp hw.notBlank
    cases w with
    | nil => simp [wordsOf, hc]
    | cons d w =>
      have hd := hrest d List.mem_cons_self
      exact wordsOf_cons_cons hc hd (ih ⟨List.cons_ne_nil d w, hrest⟩)

theorem wordsOf_append_cons (hw : IsWord w) (hc : isBlank c = true) (s : List Char) :
    wordsOf (w ++ c :: s) = w :: wordsOf s := by
  induction w with
  | nil => exact absurd rfl hw.ne_nil
  | cons d w ih =>
    obtain ⟨hd, hrest⟩ := List.forall_mem_cons.mp hw.notBlank
    cases w with
    | nil => exact wordsOf_cons_blank hd hc s
    | cons e w =>
      have he := hrest e List.mem_cons_self
      exact wordsOf_cons_cons hd he (ih ⟨List.cons_ne_nil e w, hrest⟩)

theorem Spaced.wordsOf_eq (h : Spaced ws s) : wordsOf s = ws := by
  induction h with
  | nil => rfl
  | blank hc _ ih => rw [wordsOf_cons_of_isBlank hc, ih]
  | last hw => exact wordsOf_of_isWord hw
  | word hw hc _ ih => rw [wordsOf_append_cons hw hc, ih]

/-- A character that is not blank goes to the word that it stands directly before. -/
theorem Spaced.cons {d : Char} (hc : isBlank c = false) (hd : isBlank d = false)
    (h : Spaced ws (d :: s)) : ∃ vs, Spaced vs (c :: d :: s) := by
  generalize ht : d :: s = t at h
  cases h with
  | nil => exact absurd ht (List.cons_ne_nil d s)
  | blank hb _ =>
    obtain ⟨rfl, -⟩ := List.cons.inj ht
    rw [hb] at hd
    exact absurd hd nofun
  | last hw =>
    subst ht
    exact ⟨[c :: d :: s], .last (hw.cons hc)⟩
  | word hw hb h => exact ⟨_, .word (hw.cons hc) hb h⟩

/-- Every text is made of words with blanks around them. -/
theorem exists_spaced : ∀ s : List Char, ∃ ws, Spaced ws s
  | [] => ⟨[], .nil⟩
  | [c] => by
    cases hc : isBlank c with
    | true => exact ⟨[], .blank hc .nil⟩
    | false => exact ⟨[[c]], .last (isWord_singleton hc)⟩
  | c :: d :: s => by
    obtain ⟨ws, hws⟩ := exists_spaced (d :: s)
    cases hc : isBlank c with
    | true => exact ⟨ws, .blank hc hws⟩
    | false =>
      cases hd : isBlank d with
      | true =>
        obtain ⟨vs, hvs⟩ := exists_spaced s
        exact ⟨[c] :: vs, .word (isWord_singleton hc) hd hvs⟩
      | false => exact hws.cons hc hd

/-- Cutting a text at its blanks gives just the words that stand in it. -/
theorem spaced_iff : Spaced ws s ↔ wordsOf s = ws := by
  refine ⟨Spaced.wordsOf_eq, ?_⟩
  rintro rfl
  obtain ⟨vs, hvs⟩ := exists_spaced s
  rwa [hvs.wordsOf_eq]

/-! ### Blanks at the ends -/

theorem Spaced.append_blanks {b : List Char} (hb : ∀ c ∈ b, isBlank c = true)
    (h : Spaced ws s) : Spaced ws (s ++ b) := by
  have hnil : Spaced [] b := by
    induction b with
    | nil => exact .nil
    | cons d b ih =>
      obtain ⟨hd, hrest⟩ := List.forall_mem_cons.mp hb
      exact .blank hd (ih hrest)
  induction h with
  | nil => exact hnil
  | blank hc _ ih => exact .blank hc ih
  | last hw =>
    cases b with
    | nil => rw [List.append_nil]; exact .last hw
    | cons d b =>
      obtain ⟨hd, -⟩ := List.forall_mem_cons.mp hb
      cases hnil with
      | blank _ hrest => exact .word hw hd hrest
  | word hw hc _ ih =>
    rw [List.append_assoc]
    exact .word hw hc ih

theorem Spaced.blanks_append {b : List Char} (hb : ∀ c ∈ b, isBlank c = true)
    (h : Spaced ws s) : Spaced ws (b ++ s) := by
  induction b with
  | nil => exact h
  | cons d b ih =>
    obtain ⟨hd, hrest⟩ := List.forall_mem_cons.mp hb
    exact .blank hd (ih hrest)

/-- Trimming takes blanks away, and nothing else. -/
theorem exists_eq_trimmed (s : List Char) : ∃ before after, s = before ++ trimmed s ++ after ∧
    (∀ c ∈ before, isBlank c = true) ∧ ∀ c ∈ after, isBlank c = true := by
  have hleft : s = s.takeWhile isBlank ++ trimLeft s := List.takeWhile_append_dropWhile.symm
  have hright : trimLeft s = trimmed s ++ ((trimLeft s).reverse.takeWhile isBlank).reverse := by
    rw [trimmed, trimRight, ← List.reverse_append, List.takeWhile_append_dropWhile,
      List.reverse_reverse]
  refine ⟨s.takeWhile isBlank, ((trimLeft s).reverse.takeWhile isBlank).reverse, ?_, ?_, ?_⟩
  · rw [List.append_assoc, ← hright, ← hleft]
  · exact fun c hc => List.mem_takeWhile_imp hc
  · exact fun c hc => List.mem_takeWhile_imp (List.mem_reverse.mp hc)

theorem wordsOf_trimmed (s : List Char) : wordsOf (trimmed s) = wordsOf s := by
  obtain ⟨before, after, hs, hbefore, hafter⟩ := exists_eq_trimmed s
  have hspaced : Spaced (wordsOf (trimmed s)) (before ++ trimmed s ++ after) :=
    ((spaced_iff.mpr rfl).blanks_append hbefore).append_blanks hafter
  rw [← hs, spaced_iff] at hspaced
  exact hspaced.symm

theorem Spaced.isBlank_of_nil (h : Spaced [] s) : ∀ c ∈ s, isBlank c = true := by
  generalize hws : ([] : List (List Char)) = ws at h
  induction h with
  | nil => exact nofun
  | blank hc _ ih => exact List.forall_mem_cons.mpr ⟨hc, ih hws⟩
  | last => exact absurd hws nofun
  | word => exact absurd hws nofun

theorem Spaced.exists_eq (h : Spaced [w] s) : ∃ before after, s = before ++ w ++ after ∧
    (∀ c ∈ before, isBlank c = true) ∧ ∀ c ∈ after, isBlank c = true := by
  generalize hws : [w] = ws at h
  induction h with
  | nil => exact absurd hws nofun
  | blank hc _ ih =>
    obtain ⟨before, after, rfl, hbefore, hafter⟩ := ih hws
    exact ⟨_ :: before, after, rfl, List.forall_mem_cons.mpr ⟨hc, hbefore⟩, hafter⟩
  | last =>
    obtain ⟨rfl, -⟩ := List.cons.inj hws
    exact ⟨[], [], by simp, nofun, nofun⟩
  | word _ hc h _ =>
    obtain ⟨rfl, rfl⟩ := List.cons.inj hws
    exact ⟨[], _, rfl, nofun, List.forall_mem_cons.mpr ⟨hc, h.isBlank_of_nil⟩⟩

/-- The blanks around a word are all that trimming takes away. -/
theorem trimmed_append {before after : List Char} (hbefore : ∀ c ∈ before, isBlank c = true)
    (hw : IsWord w) (hafter : ∀ c ∈ after, isBlank c = true) :
    trimmed (before ++ w ++ after) = w := by
  have hdrop {v : List Char} (hv : IsWord v) (rest : List Char) :
      (v ++ rest).dropWhile isBlank = v ++ rest := by
    obtain ⟨c, v, rfl⟩ := List.exists_cons_of_ne_nil hv.ne_nil
    exact List.dropWhile_cons_of_neg (by simp [hv.notBlank c List.mem_cons_self])
  have hreverse : IsWord w.reverse :=
    ⟨mt List.reverse_eq_nil_iff.mp hw.ne_nil,
      fun c hc => hw.notBlank c (List.mem_reverse.mp hc)⟩
  have hright : w.reverse.dropWhile isBlank = w.reverse := by
    simpa using hdrop hreverse []
  rw [trimmed, trimLeft, List.append_assoc, List.dropWhile_append_of_pos hbefore, hdrop hw _,
    trimRight, List.reverse_append,
    List.dropWhile_append_of_pos fun c hc => hafter c (List.mem_reverse.mp hc), hright,
    List.reverse_reverse]

/-- A trimmed text is a word if that is the only one in the text. -/
theorem trimmed_eq_iff (hw : IsWord w) : trimmed s = w ↔ Spaced [w] s := by
  constructor
  · rintro rfl
    rw [spaced_iff, ← wordsOf_trimmed, wordsOf_of_isWord hw]
  · intro h
    obtain ⟨before, after, rfl, hbefore, hafter⟩ := h.exists_eq
    exact trimmed_append hbefore hw hafter

end Rollout.Text
