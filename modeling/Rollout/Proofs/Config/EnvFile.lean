import Mathlib.Data.List.Infix
import Rollout.Config.Source
import Rollout.Proofs.Decimal.Digits
import Rollout.Proofs.Text

/-!
# Reading environment files

A line that puts `=` between the name of a variable and a value sets this variable. The
value loses the blanks at its ends and then one pair of quotes around it, and nothing else:
what was escaped stays escaped. Since a variable is set by one line, no value that is read
has a line feed.
-/

namespace Rollout.EnvFile

/-! ### Names of variables -/

/-- What the name of a variable may begin with. -/
def isNameStart (c : Char) : Bool := c.isAlpha || c == '_'

/-- What may stand in the name of a variable. -/
def isNameChar (c : Char) : Bool := isNameStart c || c.isDigit

/-- The name of a variable: letters and digits of ASCII and underscores, no digit first. -/
def isNameOf : List Char → Bool
  | [] => false
  | c :: cs => isNameStart c && cs.all isNameChar

/-- A text that is the name of a variable. -/
def isName (s : String) : Bool := isNameOf s.toList

theorem isNameChar_of_mem {name : List Char} (h : isNameOf name = true) {c : Char}
    (hc : c ∈ name) : isNameChar c = true := by
  cases name with
  | nil => exact absurd hc List.not_mem_nil
  | cons d name =>
    rw [isNameOf, Bool.and_eq_true, List.all_eq_true] at h
    obtain ⟨hfirst, hrest⟩ := h
    rcases List.mem_cons.mp hc with rfl | hc
    · rw [isNameChar, hfirst, Bool.true_or]
    · exact hrest c hc

theorem not_isBlank_of_isNameChar {c : Char} (h : isNameChar c = true) :
    Text.isBlank c = false := by
  simp only [isNameChar, isNameStart, Bool.or_eq_true, Text.isAlpha_iff, Text.isUpper_iff,
    Text.isLower_iff, beq_iff_eq] at h
  have hcode : 48 ≤ c.toNat ∧ c.toNat ≤ 122 := by
    obtain ((hupper | hlower) | rfl) | hdigit := h
    · omega
    · omega
    · decide
    · obtain ⟨hlow, hhigh⟩ := toNat_of_isDigit hdigit
      omega
  exact Text.not_isBlank_of_toNat (by omega) (by omega)

theorem notMem_of_isNameOf {name : List Char} (h : isNameOf name = true) {c : Char}
    (hc : isNameChar c = false) : c ∉ name := by
  intro hmem
  rw [isNameChar_of_mem h hmem] at hc
  exact Bool.noConfusion hc

/-! ### Quotes -/

/-- A text between two quotes of one kind. -/
def Enclosed (quote : Char) (s : List Char) : Prop :=
  s.head? = some quote ∧ s.tail.getLast? = some quote

instance (quote : Char) (s : List Char) : Decidable (Enclosed quote s) :=
  inferInstanceAs (Decidable (_ ∧ _))

theorem enclosed_iff {quote : Char} {s : List Char} :
    Enclosed quote s ↔ ∃ inner, s = quote :: (inner ++ [quote]) := by
  constructor
  · rintro ⟨hfirst, hlast⟩
    obtain ⟨rest, rfl⟩ := List.head?_eq_some_iff.mp hfirst
    obtain ⟨inner, hinner⟩ := List.getLast?_eq_some_iff.mp hlast
    exact ⟨inner, congrArg (quote :: ·) hinner⟩
  · rintro ⟨inner, rfl⟩
    exact ⟨rfl, List.getLast?_concat⟩

theorem unquote_enclosed {quote : Char} (h : quote = '"' ∨ quote = '\'') (inner : List Char) :
    unquote (quote :: (inner ++ [quote])) = inner := by
  have hquote : (decide (quote = '"') || decide (quote = '\'')) = true := by simpa using h
  simp [unquote, hquote]

/-- A text stays as it is read if it does not stand between quotes. -/
theorem unquote_eq_self_iff {s : List Char} :
    unquote s = s ↔ ¬ Enclosed '"' s ∧ ¬ Enclosed '\'' s := by
  constructor
  · intro h
    have hnot {quote : Char} (hquote : quote = '"' ∨ quote = '\'') : ¬ Enclosed quote s := by
      rw [enclosed_iff]
      rintro ⟨inner, rfl⟩
      rw [unquote_enclosed hquote] at h
      have hlength := congrArg List.length h
      rw [List.length_cons, List.length_append] at hlength
      omega
    exact ⟨hnot (.inl rfl), hnot (.inr rfl)⟩
  · rintro ⟨hdouble, hsingle⟩
    cases s with
    | nil => rfl
    | cons quote rest =>
      rw [unquote, if_neg]
      intro hcond
      simp only [Bool.and_eq_true, Bool.or_eq_true, decide_eq_true_eq, beq_iff_eq] at hcond
      obtain ⟨⟨hquote, -⟩, hlast⟩ := hcond
      rcases hquote with rfl | rfl
      · exact hdouble ⟨rfl, hlast⟩
      · exact hsingle ⟨rfl, hlast⟩

theorem unquote_subset (s : List Char) : unquote s ⊆ s := by
  intro c hc
  cases s with
  | nil => exact hc
  | cons quote rest =>
    rw [unquote] at hc
    split at hc
    · exact List.mem_cons_of_mem quote (List.dropLast_subset rest hc)
    · exact hc

/-! ### Lines -/

/-- A line without the word `export` before what it says. -/
def withoutExport (line : List Char) : List Char :=
  ("export ".toList.isPrefixOf? line).getD line

theorem withoutExport_subset (line : List Char) : withoutExport line ⊆ line := by
  intro c hc
  rw [withoutExport] at hc
  cases hexport : "export ".toList.isPrefixOf? line with
  | none => rwa [hexport] at hc
  | some rest =>
    rw [hexport] at hc
    rw [List.isPrefixOf?_eq_some_iff_append_eq] at hexport
    exact hexport ▸ List.mem_append_right _ hc

/-- When a line sets a variable, and to what. -/
theorem parseLine_eq_some_iff {line : List Char} {e : String × String} :
    parseLine line = some e ↔
      Text.trimmed line ≠ [] ∧ (Text.trimmed line).head? ≠ some '#' ∧
        ∃ name value, Text.cut '=' (withoutExport (Text.trimmed line)) = some (name, value) ∧
          Text.trimmed name ≠ [] ∧
          e = (String.ofList (Text.trimmed name),
            String.ofList (unquote (Text.trimmed value))) := by
  rw [parseLine, withoutExport]
  by_cases hline : Text.trimmed line = []
  · simp [hline]
  by_cases hcomment : (Text.trimmed line).head? = some '#'
  · simp [hcomment]
  have hspoken : ((Text.trimmed line).isEmpty || (Text.trimmed line).head? == some '#') = false := by
    simp [hline, hcomment]
  rw [hspoken, if_neg Bool.false_ne_true]
  dsimp only
  cases hcut : Text.cut '=' (("export ".toList.isPrefixOf? (Text.trimmed line)).getD
    (Text.trimmed line)) with
  | none => simp
  | some cut =>
    obtain ⟨name, value⟩ := cut
    by_cases hname : Text.trimmed name = []
    · simp [hname]
    · simp only [List.isEmpty_iff, hname, if_false, Option.some.injEq]
      constructor
      · rintro rfl
        exact ⟨hline, hcomment, name, value, rfl, hname, rfl⟩
      · rintro ⟨-, -, name', value', hcut', -, rfl⟩
        obtain ⟨rfl, rfl⟩ := Prod.mk.inj hcut'
        rfl

theorem parseLine_comment (said : List Char) : parseLine ('#' :: said) = none := by
  refine Option.eq_none_iff_forall_ne_some.mpr fun e he => ?_
  obtain ⟨-, hcomment, -⟩ := parseLine_eq_some_iff.mp he
  exact hcomment (Text.head?_trimmed_cons rfl said)
/-- A line that puts `=` between a name and a value sets the variable of this name. -/
theorem parseLine_assignment {name value : List Char} (hname : isNameOf name = true)
    (hvalue : ∀ c ∈ value.getLast?, Text.isBlank c = false) :
    parseLine (name ++ '=' :: value) =
      some (String.ofList name, String.ofList (unquote (Text.trimmed value))) := by
  obtain ⟨first, rest, rfl⟩ : ∃ first rest, name = first :: rest := by
    cases name with
    | nil => exact Bool.noConfusion hname
    | cons first rest => exact ⟨first, rest, rfl⟩
  have hblank {c : Char} (hc : c ∈ first :: rest) : Text.isBlank c = false :=
    not_isBlank_of_isNameChar (isNameChar_of_mem hname hc)
  have hlast : ∀ c ∈ (first :: rest ++ '=' :: value).getLast?, Text.isBlank c = false := by
    intro c hc
    rw [List.getLast?_append, List.getLast?_cons, Option.some_or, Option.mem_some] at hc
    subst hc
    cases hend : value.getLast? with
    | none => rfl
    | some c => exact hvalue c hend
  have hline : Text.trimmed (first :: rest ++ '=' :: value) = first :: rest ++ '=' :: value := by
    apply Text.trimmed_of_ends _ hlast
    rintro c hc
    exact hblank (Option.mem_some.mp hc ▸ List.mem_cons_self)
  have hkey : Text.trimmed (first :: rest) = first :: rest :=
    Text.trimmed_of_ends (fun c hc => hblank (List.mem_of_mem_head? hc))
      fun c hc => hblank (List.mem_of_mem_getLast? hc)
  -- `export` and the blank after it would be part of the name
  have hexport : withoutExport (first :: rest ++ '=' :: value) = first :: rest ++ '=' :: value := by
    rw [withoutExport]
    cases hstart : "export ".toList.isPrefixOf? (first :: rest ++ '=' :: value) with
    | none => rfl
    | some after =>
      rw [List.isPrefixOf?_eq_some_iff_append_eq] at hstart
      obtain ⟨after, hafter⟩ := (Text.prefix_append_cons_iff (by decide)).mp ⟨_, hstart⟩
      have hspace : ' ' ∈ first :: rest := hafter ▸ List.mem_append_left after (by decide)
      exact absurd hspace (notMem_of_isNameOf hname rfl)
  rw [parseLine_eq_some_iff, hline, hexport]
  refine ⟨List.cons_ne_nil _ _, ?_, first :: rest, value, ?_, ?_, ?_⟩
  · intro hhash
    obtain rfl := Option.some.inj hhash
    exact notMem_of_isNameOf hname rfl List.mem_cons_self
  · exact Text.cut_append_cons (notMem_of_isNameOf hname rfl) value
  · rw [hkey]
    exact List.cons_ne_nil _ _
  · rw [hkey]

/-- Nothing is read as a value that does not stand in the line. -/
theorem subset_of_parseLine {line : List Char} {e : String × String}
    (h : parseLine line = some e) : e.2.toList ⊆ line := by
  obtain ⟨-, -, name, value, hcut, -, rfl⟩ := parseLine_eq_some_iff.mp h
  rw [Text.cut_eq_some_iff] at hcut
  intro c hc
  rw [String.toList_ofList] at hc
  have hvalue : c ∈ value := Text.trimmed_subset value (unquote_subset _ hc)
  apply Text.trimmed_subset line
  apply withoutExport_subset
  rw [hcut.1]
  exact List.mem_append_right _ (List.mem_cons_of_mem _ hvalue)

/-! ### Files -/

theorem newline_notMem_of_mem_parse {content : String} {e : String × String}
    (h : e ∈ parse content) : '\n' ∉ e.2.toList := by
  obtain ⟨line, hline, he⟩ := List.mem_filterMap.mp h
  intro hmem
  exact Text.newline_notMem_of_mem_linesOf hline (subset_of_parseLine he hmem)

end Rollout.EnvFile
