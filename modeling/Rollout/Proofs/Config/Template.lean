import Mathlib.Data.List.Basic
import Mathlib.Data.List.TakeWhile
import Rollout.Config.Template
import Rollout.Proofs.Assoc
import Rollout.Proofs.Decimal.Digits

/-!
# Filling in templates

A template is cut in one way only into placeholders and other characters: from the left, a
placeholder wherever one begins that is not inside the one before. Filling it in puts the values in
the places of the placeholders that have one and leaves all else as it stands. What the values
themselves look like does not matter, and neither does the order in which they are given.
-/

namespace Rollout.Template

variable {s rest name : List Char} {c : Char} {ps : List Piece} {vars others : Assoc String}

/-! ### Placeholders -/

/-- An identifier: a letter or an underscore, and then letters, digits and underscores. -/
inductive IsIdentifier : List Char → Prop where
  | intro {c : Char} {cs : List Char} (hstart : isNameStart c = true)
    (hrest : ∀ d ∈ cs, isNameChar d = true) : IsIdentifier (c :: cs)

/-- A placeholder stands at the beginning of the characters. -/
def StartsPlaceholder (s : List Char) : Prop :=
  ∃ name rest, IsIdentifier name ∧ s = '{' :: (name ++ '}' :: rest)

theorem isNameChar_of_isNameStart (h : isNameStart c = true) : isNameChar c = true := by
  simp only [isNameStart, isNameChar, Char.isAlphanum, Bool.or_eq_true] at h ⊢
  exact h.imp_left .inl

theorem IsIdentifier.isNameChar (h : IsIdentifier name) : ∀ c ∈ name, isNameChar c = true := by
  cases h with
  | intro hstart hrest => exact List.forall_mem_cons.mpr ⟨isNameChar_of_isNameStart hstart, hrest⟩

theorem nameAt?_eq_some_iff :
    nameAt? s = some name ↔ IsIdentifier name ∧ ∃ rest, s = name ++ '}' :: rest := by
  constructor
  · intro h
    have hs : s = s.takeWhile isNameChar ++ s.dropWhile isNameChar :=
      List.takeWhile_append_dropWhile.symm
    unfold nameAt? at h
    dsimp only at h
    split at h
    · rename_i c cs rest hname hrest
      split at h
      · rename_i hstart
        obtain rfl := Option.some.inj h
        have hall : ∀ d ∈ s.takeWhile isNameChar, isNameChar d = true :=
          fun d hd => List.mem_takeWhile_imp hd
        refine ⟨?_, rest, by rw [← hrest, ← hs]⟩
        rw [hname] at hall ⊢
        exact .intro hstart (List.forall_mem_cons.mp hall).2
      · exact absurd h nofun
    · exact absurd h nofun
  · rintro ⟨hname, rest, rfl⟩
    have hclosing : ∀ c ∈ ('}' :: rest).head?, isNameChar c = false := by
      rintro c ⟨⟩
      rfl
    have hspan := span_append hname.isNameChar hclosing
    rw [List.span_eq_takeWhile_dropWhile] at hspan
    obtain ⟨htake, hdrop⟩ := Prod.mk.inj hspan
    cases hname with
    | intro hstart hrest =>
      rw [nameAt?, htake, hdrop]
      exact if_pos hstart

/-! ### Parts -/

/-- A template cut into its parts: they make it up in their order, placeholders have identifiers for
names, and where a character stands alone no placeholder begins. -/
structure IsCut (s : List Char) (ps : List Piece) : Prop where
  source : ps.flatMap Piece.source = s
  names : ∀ name, .placeholder name ∈ ps → IsIdentifier name
  leftmost : ∀ before c after, ps = before ++ .char c :: after →
    ¬ StartsPlaceholder (c :: after.flatMap Piece.source)

theorem isCut_nil_iff : IsCut s [] ↔ s = [] := by
  constructor
  · intro h
    exact h.source.symm
  · rintro rfl
    exact ⟨rfl, nofun, fun before c after h => absurd h (by simp)⟩

theorem isCut_char_iff : IsCut s (.char c :: ps) ↔
    ∃ rest, s = c :: rest ∧ ¬ StartsPlaceholder s ∧ IsCut rest ps := by
  constructor
  · rintro ⟨rfl, hnames, hleft⟩
    refine ⟨ps.flatMap Piece.source, rfl, hleft [] c ps rfl, rfl, ?_, ?_⟩
    · exact fun name hname => hnames name (List.mem_cons_of_mem _ hname)
    · rintro before d after rfl
      exact hleft (.char c :: before) d after rfl
  · rintro ⟨rest, rfl, hnot, rfl, hnames, hleft⟩
    refine ⟨rfl, fun name hname => ?_, fun before d after h => ?_⟩
    · obtain h | h := List.mem_cons.mp hname
      · exact absurd h nofun
      · exact hnames name h
    · cases before with
      | nil =>
        obtain ⟨hc, rfl⟩ := List.cons.inj h
        obtain rfl := Piece.char.inj hc
        exact hnot
      | cons p before =>
        obtain ⟨-, h⟩ := List.cons.inj h
        exact hleft before d after h

theorem isCut_placeholder_iff : IsCut s (.placeholder name :: ps) ↔
    IsIdentifier name ∧ ∃ rest, s = '{' :: (name ++ '}' :: rest) ∧ IsCut rest ps := by
  constructor
  · rintro ⟨rfl, hnames, hleft⟩
    refine ⟨hnames name List.mem_cons_self, ps.flatMap Piece.source, ?_, rfl, ?_, ?_⟩
    · simp [Piece.source]
    · exact fun other hother => hnames other (List.mem_cons_of_mem _ hother)
    · rintro before d after rfl
      exact hleft (.placeholder name :: before) d after rfl
  · rintro ⟨hname, rest, rfl, rfl, hnames, hleft⟩
    refine ⟨by simp [Piece.source], fun other hother => ?_, fun before d after h => ?_⟩
    · obtain h | h := List.mem_cons.mp hother
      · obtain rfl := Piece.placeholder.inj h
        exact hname
      · exact hnames other h
    · cases before with
      | nil =>
        obtain ⟨h, -⟩ := List.cons.inj h
        exact absurd h nofun
      | cons p before =>
        obtain ⟨-, h⟩ := List.cons.inj h
        exact hleft before d after h

theorem piecesFrom_eq_drop (skip : Nat) (s : List Char) :
    piecesFrom skip s = pieces (s.drop skip) := by
  induction skip generalizing s with
  | zero => rfl
  | succ skip ih =>
    cases s with
    | nil => rfl
    | cons c s => exact ih s

/-- A placeholder that begins a template is its first part. -/
theorem pieces_placeholder (hname : IsIdentifier name) (rest : List Char) :
    pieces ('{' :: (name ++ '}' :: rest)) = .placeholder name :: pieces rest := by
  have hat : nameAt? (name ++ '}' :: rest) = some name :=
    nameAt?_eq_some_iff.mpr ⟨hname, rest, rfl⟩
  rw [pieces, piecesFrom, if_pos rfl, hat]
  dsimp only
  rw [piecesFrom_eq_drop]
  simp

/-- A character that begins no placeholder is a part of its own. -/
theorem pieces_char (h : ¬ StartsPlaceholder (c :: rest)) :
    pieces (c :: rest) = .char c :: pieces rest := by
  rw [pieces, piecesFrom]
  split
  · rename_i hc
    subst hc
    cases hat : nameAt? rest with
    | none => rfl
    | some name =>
      obtain ⟨hname, after, rfl⟩ := nameAt?_eq_some_iff.mp hat
      exact absurd ⟨name, after, hname, rfl⟩ h
  · rfl

/-- The parts of a template are the only ones into which it can be cut. -/
theorem IsCut.eq_pieces (h : IsCut s ps) : ps = pieces s := by
  induction ps generalizing s with
  | nil =>
    obtain rfl := isCut_nil_iff.mp h
    rfl
  | cons p ps ih =>
    cases p with
    | placeholder name =>
      obtain ⟨hname, rest, rfl, hrest⟩ := isCut_placeholder_iff.mp h
      rw [pieces_placeholder hname, ← ih hrest]
    | char c =>
      obtain ⟨rest, rfl, hnot, hrest⟩ := isCut_char_iff.mp h
      rw [pieces_char hnot, ← ih hrest]

theorem isCut_pieces (s : List Char) : IsCut s (pieces s) := by
  induction hn : s.length using Nat.strongRecOn generalizing s with
  | ind n ih =>
    subst hn
    by_cases hstarts : StartsPlaceholder s
    · obtain ⟨name, rest, hname, rfl⟩ := hstarts
      rw [pieces_placeholder hname, isCut_placeholder_iff]
      refine ⟨hname, rest, rfl, ih rest.length ?_ rest rfl⟩
      simp only [List.length_cons, List.length_append]
      omega
    · cases s with
      | nil => exact isCut_nil_iff.mpr rfl
      | cons c rest =>
        rw [pieces_char hstarts, isCut_char_iff]
        exact ⟨rest, rfl, hstarts, ih rest.length (Nat.lt_succ_self _) rest rfl⟩

/-! ### Filling in -/

theorem toList_substitute (template : String) (vars : Assoc String) :
    (substitute template vars).toList = (pieces template.toList).flatMap (Piece.fill vars) := by
  rw [substitute, String.toList_ofList]

/-- Only the values of names that a template has placeholders for matter. -/
theorem substitute_congr {template : String} (h : ∀ name,
      .placeholder name ∈ pieces template.toList →
        others.get? (String.ofList name) = vars.get? (String.ofList name)) :
    substitute template others = substitute template vars := by
  rw [substitute, substitute]
  refine congrArg String.ofList (List.flatMap_congr fun p hp => ?_)
  cases p with
  | placeholder name => rw [Piece.fill, Piece.fill, h name hp]
  | char c => rfl

theorem fill_eq_source (h : ∀ e ∈ vars, e.2 = "\x7b" ++ e.1 ++ "\x7d") (p : Piece) :
    p.fill vars = p.source := by
  cases p with
  | char c => rfl
  | placeholder name =>
    rw [Piece.fill]
    cases hvalue : vars.get? (String.ofList name) with
    | none => rfl
    | some value =>
      have hself : value = "\x7b" ++ String.ofList name ++ "\x7d" :=
        h (String.ofList name, value) (Assoc.mem_of_get? hvalue)
      rw [hself]
      simp [Piece.source]

/-- A template is cut in exactly one way, and filled in by putting the value of each placeholder
that has one in its place, with all else as it stands. So values are not filled in themselves, the
order of the variables does not matter, and nothing changes if each stands for its own
placeholder. -/
theorem substitute_simultaneous (template : String) (vars : Assoc String) :
    ∃ ps, IsCut template.toList ps ∧ (∀ qs, IsCut template.toList qs → qs = ps) ∧
      (substitute template vars).toList = ps.flatMap (Piece.fill vars) ∧
      (∀ others : Assoc String, (∀ name, .placeholder name ∈ ps →
          others.get? (String.ofList name) = vars.get? (String.ofList name)) →
        substitute template others = substitute template vars) ∧
      (∀ others : Assoc String, vars.keys.Nodup → others.Perm vars →
        substitute template others = substitute template vars) ∧
      ((∀ e ∈ vars, e.2 = "\x7b" ++ e.1 ++ "\x7d") → substitute template vars = template) := by
  have hcut := isCut_pieces template.toList
  refine ⟨pieces template.toList, hcut, fun qs hqs => hqs.eq_pieces,
    toList_substitute template vars, fun others => substitute_congr, fun others hnodup hperm => ?_,
    fun hself => ?_⟩
  · exact substitute_congr fun name _ => Assoc.get?_of_perm hnodup hperm _
  · rw [← String.toList_inj]
    calc
      (substitute template vars).toList = (pieces template.toList).flatMap (Piece.fill vars) :=
        toList_substitute template vars
      _ = (pieces template.toList).flatMap Piece.source :=
        List.flatMap_congr fun p _ => fill_eq_source hself p
      _ = template.toList := hcut.source

/-- The value of `a` looks like a placeholder and stays, doubled and single braces stay, and so does
a placeholder without a value. -/
theorem substitute_simultaneous_braces :
    let template := "\x7ba\x7d\x7b\x7bb\x7d\x7d\x7bc\x7d\x7b"
    let vars : Assoc String := [("a", "\x7bb\x7d"), ("b", "1")]
    substitute template vars = "\x7bb\x7d\x7b1\x7d\x7bc\x7d\x7b" ∧
      substitute template [("b", "1"), ("a", "\x7bb\x7d")] = substitute template vars ∧
      substitute template [("b", "\x7bb\x7d")] = template := by
  intro template vars
  obtain ⟨ps, -, -, -, -, horder, -⟩ := substitute_simultaneous template vars
  obtain ⟨-, -, -, -, -, -, hself⟩ := substitute_simultaneous template [("b", "\x7bb\x7d")]
  refine ⟨by decide, horder _ (by decide) (List.Perm.swap _ _ _), hself ?_⟩
  exact List.forall_mem_singleton.mpr (by decide)

end Rollout.Template
