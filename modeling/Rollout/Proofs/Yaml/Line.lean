import Rollout.Proofs.Decimal.Written
import Rollout.Yaml.Printer

/-!
# The lines of written YAML

Documents in one text stand apart by lines that hold three dashes and nothing else. No line of what
is written for a mapping begins with three dashes, whatever texts it holds: a key that does is
quoted, and every other line begins with the mark of an item or a key or with the spaces of an
indentation. So a text that is put together from such documents is cut into just these.

A line ends at any line end of YAML. A document need not end in a line feed: where its last text
stands on lines of its own and ends in another line end, nothing is written behind that.
-/

namespace Rollout.Yaml

variable {ends : Char → Bool} {fresh : Bool} {c : Char} {s t : List Char} {n : Nat}

/-! ### Cutting into lines and documents -/

/-- Characters cut behind each one that ends a line. -/
def lines (ends : Char → Bool) : List Char → List (List Char)
  | [] => []
  | c :: s =>
    if ends c then [c] :: lines ends s
    else
      match lines ends s with
      | [] => [[c]]
      | line :: rest => (c :: line) :: rest

/-- What a line begins with that separates documents. -/
def marker : List Char := "---".toList

/-- A line that holds the marker and nothing else before its end. -/
def isMarker (ends : Char → Bool) (line : List Char) : Bool :=
  line.takeWhile (!ends ·) == marker

/-- The texts between the lines that separate documents. -/
def splitDocuments (ends : Char → Bool) (s : String) : List String :=
  ((lines ends s.toList).splitOnP (isMarker ends)).map fun ls => String.ofList ls.flatten

/-- The last of the characters, if there are any, ends a line. -/
def IsClosed (ends : Char → Bool) (s : List Char) : Prop := ∀ c ∈ s.getLast?, ends c = true

theorem lines_cons_of_end (h : ends c = true) : lines ends (c :: s) = [c] :: lines ends s := by
  rw [lines, if_pos h]

theorem lines_cons_of_not_end (h : ends c = false) :
    lines ends (c :: s) = (c :: (lines ends s).headD []) :: (lines ends s).tail := by
  rw [lines, if_neg (Bool.eq_false_iff.mp h)]
  cases lines ends s <;> rfl

theorem flatten_lines (ends : Char → Bool) (s : List Char) : (lines ends s).flatten = s := by
  induction s with
  | nil => rfl
  | cons c s ih =>
    cases hc : ends c with
    | true => rw [lines_cons_of_end hc, List.flatten_cons, ih, List.singleton_append]
    | false =>
      rw [lines_cons_of_not_end hc, List.flatten_cons, List.cons_append]
      cases hlines : lines ends s with
      | nil =>
        rw [hlines] at ih
        exact congrArg (c :: ·) ih
      | cons line rest =>
        rw [hlines] at ih
        exact congrArg (c :: ·) ih

/-- The first line is what the characters begin with. -/
theorem headD_lines_prefix (ends : Char → Bool) (s : List Char) :
    (lines ends s).headD [] <+: s := by
  have hflatten := flatten_lines ends s
  cases hlines : lines ends s with
  | nil => exact List.nil_prefix
  | cons line rest =>
    rw [hlines, List.flatten_cons] at hflatten
    exact ⟨rest.flatten, hflatten⟩

theorem lines_ne_nil (ends : Char → Bool) (h : s ≠ []) : lines ends s ≠ [] := by
  intro hnil
  have hflatten := flatten_lines ends s
  rw [hnil, List.flatten_nil] at hflatten
  exact h hflatten.symm

/-- Behind whole lines, other lines are cut as they are alone. -/
theorem lines_append (hs : IsClosed ends s) (t : List Char) :
    lines ends (s ++ t) = lines ends s ++ lines ends t := by
  induction s with
  | nil => rfl
  | cons c s ih =>
    have hclosed : IsClosed ends s := by
      intro d hd
      refine hs d ?_
      rw [List.getLast?_cons, Option.mem_def.mp hd]
      rfl
    cases hc : ends c with
    | true =>
      rw [List.cons_append, lines_cons_of_end hc, lines_cons_of_end hc, ih hclosed,
        List.cons_append]
    | false =>
      -- the line that `c` is in goes on in `s`
      have hne : s ≠ [] := by
        rintro rfl
        exact absurd (hs c rfl) (Bool.eq_false_iff.mp hc)
      obtain ⟨line, rest, hlines⟩ := List.exists_cons_of_ne_nil (lines_ne_nil ends hne)
      rw [List.cons_append, lines_cons_of_not_end hc, lines_cons_of_not_end hc, ih hclosed, hlines]
      rfl

theorem marker_prefix_of_isMarker {line : List Char} (h : isMarker ends line = true) :
    marker <+: line := by
  rw [← beq_iff_eq.mp h]
  exact List.takeWhile_prefix _

/-- The line between two documents. -/
def separator : List Char := marker ++ ['\n']

section Separated

variable (hend : ends '\n' = true) (hdash : ends '-' = false)
include hend hdash

theorem isMarker_separator : isMarker ends separator = true := by
  simp [isMarker, separator, marker, hend, hdash]

theorem lines_separator_append (s : List Char) :
    lines ends (separator ++ s) = separator :: lines ends s := by
  have hclosed : IsClosed ends separator := by
    intro c hc
    obtain rfl := Option.some.inj hc
    exact hend
  have hsingle : lines ends separator = [separator] := by
    simp [lines, separator, marker, hend, hdash]
  rw [lines_append hclosed, hsingle, List.singleton_append]

/-- Documents of whole lines, none of which begins with the marker, are found again where they are
joined by lines with the marker. The last of them need not end its last line. -/
theorem splitDocuments_intercalate {docs : List String} (hne : docs ≠ [])
    (hclosed : ∀ d ∈ docs.dropLast, IsClosed ends d.toList)
    (hunmarked : ∀ d ∈ docs, ∀ line ∈ lines ends d.toList, ¬ marker <+: line) :
    splitDocuments ends ((String.ofList separator).intercalate docs) = docs := by
  have hnone {d : String} (hd : d ∈ docs) :
      ∀ line ∈ lines ends d.toList, isMarker ends line = false :=
    fun line hline => Bool.eq_false_iff.mpr fun h =>
      hunmarked d hd line hline (marker_prefix_of_isMarker h)
  have hback (d : String) : String.ofList (lines ends d.toList).flatten = d := by
    rw [flatten_lines, String.ofList_toList]
  induction docs with
  | nil => exact absurd rfl hne
  | cons d docs ih =>
    cases docs with
    | nil =>
      rw [String.intercalate_singleton, splitDocuments,
        List.splitOnP_eq_singleton (hnone List.mem_cons_self), List.map_singleton, hback]
    | cons e docs =>
      have hrest : splitDocuments ends ((String.ofList separator).intercalate (e :: docs)) =
          e :: docs :=
        ih (List.cons_ne_nil e docs) (fun d hd => hclosed d (List.mem_cons_of_mem _ hd))
          (fun d hd => hunmarked d (List.mem_cons_of_mem _ hd))
          fun hd => hnone (List.mem_cons_of_mem _ hd)
      rw [splitDocuments] at hrest ⊢
      rw [String.intercalate_cons_cons, String.toList_append, String.toList_append,
        String.toList_ofList, List.append_assoc, lines_append (hclosed d List.mem_cons_self),
        lines_separator_append hend hdash,
        List.splitOnP_append_cons_of_forall_mem (hnone List.mem_cons_self) _
          (isMarker_separator hend hdash),
        List.map_cons, hback, hrest]

example : splitDocuments isBreak "a: 1\n---\nb: '---'\n" = ["a: 1\n", "b: '---'\n"] := by
  decide

end Separated

/-! ### Lines that do not begin with the marker -/

/-- Characters up to the end of a line, where no line begins with the marker. `fresh` says whether
a line begins with the first of them. -/
inductive Unmarked : (fresh : Bool) → List Char → Prop
  | nil : Unmarked true []
  | close {fresh : Bool} {c : Char} {s : List Char} (hc : isBreak c = true)
      (hs : Unmarked true s) : Unmarked fresh (c :: s)
  | char {c : Char} {s : List Char} (hc : isBreak c = false) (hs : Unmarked false s) :
      Unmarked false (c :: s)
  | start {s : List Char} (hs : Unmarked false s) (hmarker : ¬ marker <+: s) : Unmarked true s

theorem isMultiline_eq_false_iff : isMultiline s = false ↔ ∀ c ∈ s, isBreak c = false := by
  simp only [isMultiline, List.any_eq_false, Bool.not_eq_true]

theorem not_isBreak_of_mem_marker (h : c ∈ marker) : isBreak c = false :=
  isMultiline_eq_false_iff.mp rfl c h

theorem not_marker_prefix_of_ne (h : c ≠ '-') : ¬ marker <+: c :: s := by
  rintro ⟨t, ht⟩
  exact h (List.cons.inj ht).1.symm

theorem not_marker_prefix_of_isBreak (h : isBreak c = true) : ¬ marker <+: c :: s := by
  refine not_marker_prefix_of_ne ?_
  rintro rfl
  exact absurd h (by decide)

namespace Unmarked

/-- What begins a line may also stand where a line goes on. -/
theorem continued (h : Unmarked true s) (hne : s ≠ []) : Unmarked false s := by
  cases h with
  | nil => exact absurd rfl hne
  | close hc hs => exact .close hc hs
  | start hs _ => exact hs

theorem ne_nil (h : Unmarked false s) : s ≠ [] := by
  rintro rfl
  cases h

theorem isClosed (h : Unmarked fresh s) : IsClosed isBreak s := by
  induction h with
  | nil => exact fun d hd => absurd hd nofun
  | @close _ c s hc _ ih =>
    intro d hd
    rw [List.getLast?_cons] at hd
    obtain rfl := Option.some.inj hd
    cases hlast : s.getLast? with
    | none => exact hc
    | some e => exact ih e hlast
  | @char c s _ hs ih =>
    intro d hd
    rw [List.getLast?_cons] at hd
    obtain rfl := Option.some.inj hd
    rw [List.getLast?_eq_some_getLast hs.ne_nil]
    exact ih _ (List.getLast?_eq_some_getLast hs.ne_nil)
  | start _ _ ih => exact ih

/-- Characters without a line end may stand where a line goes on. -/
theorem append_left (hs : ∀ c ∈ s, isBreak c = false) (ht : Unmarked false t) :
    Unmarked false (s ++ t) := by
  induction s with
  | nil => exact ht
  | cons c s ih =>
    obtain ⟨hc, hs⟩ := List.forall_mem_cons.mp hs
    exact .char hc (ih hs)

theorem append (hs : Unmarked fresh s) (ht : Unmarked true t) : Unmarked fresh (s ++ t) := by
  induction hs with
  | nil => exact ht
  | close hc _ ih => exact .close hc ih
  | char hc _ ih => exact .char hc ih
  | @start s hs hmarker ih =>
    refine .start ih fun hbegins => ?_
    -- `s` has a line end, so it is no part of the marker
    obtain hlong | hshort := List.prefix_or_prefix_of_prefix hbegins (List.prefix_append s t)
    · exact hmarker hlong
    · have hlast := hs.isClosed _ (List.getLast?_eq_some_getLast hs.ne_nil)
      rw [not_isBreak_of_mem_marker (hshort.subset (List.getLast_mem hs.ne_nil))] at hlast
      exact absurd hlast Bool.false_ne_true

/-- No line that is cut off begins with the marker, whichever of the line ends of YAML end one. -/
theorem not_prefix_of_mem_lines (hends : ∀ c, ends c = true → isBreak c = true)
    (h : Unmarked true s) : ∀ line ∈ lines ends s, ¬ marker <+: line := by
  -- of a line that goes on, only the lines after it are known
  have hboth {fresh : Bool} {s : List Char} (h : Unmarked fresh s) :
      (∀ line ∈ (lines ends s).tail, ¬ marker <+: line) ∧
        (fresh = true → ∀ line ∈ lines ends s, ¬ marker <+: line) := by
    induction h with
    | nil => exact ⟨fun _ h => absurd h List.not_mem_nil, fun _ _ h => absurd h List.not_mem_nil⟩
    | @close fresh c s hc _ ih =>
      cases hend : ends c with
      | true =>
        rw [lines_cons_of_end hend]
        exact ⟨ih.2 rfl, fun _ => List.forall_mem_cons.mpr
          ⟨not_marker_prefix_of_isBreak hc, ih.2 rfl⟩⟩
      | false =>
        rw [lines_cons_of_not_end hend]
        exact ⟨ih.1, fun _ => List.forall_mem_cons.mpr ⟨not_marker_prefix_of_isBreak hc, ih.1⟩⟩
    | @char c s hc _ ih =>
      have hend : ends c = false :=
        Bool.eq_false_iff.mpr fun h => Bool.eq_false_iff.mp hc (hends c h)
      rw [lines_cons_of_not_end hend]
      exact ⟨ih.1, fun h => absurd h Bool.false_ne_true⟩
    | @start s hs hmarker ih =>
      refine ⟨ih.1, fun _ line hline hbegins => ?_⟩
      obtain ⟨first, rest, hlines⟩ := List.exists_cons_of_ne_nil (lines_ne_nil ends hs.ne_nil)
      have hfirst := headD_lines_prefix ends s
      rw [hlines] at hline hfirst ih
      obtain rfl | hline := List.mem_cons.mp hline
      · exact hmarker (hbegins.trans hfirst)
      · exact ih.1 line hline hbegins
  exact (hboth h).2 rfl

/-- A line that is indented does not begin with the marker. -/
theorem indented (hn : 0 < n) (h : Unmarked false s) : Unmarked true (spaces n ++ s) := by
  obtain ⟨m, rfl⟩ := Nat.exists_eq_add_of_lt hn
  refine .start (h.append_left fun c hc => ?_) ?_
  · rw [List.eq_of_mem_replicate hc]
    rfl
  · rw [Nat.zero_add, spaces, List.replicate_succ, List.cons_append]
    exact not_marker_prefix_of_ne (by decide)

/-- A line that does not begin with the marker may be indented or not. -/
theorem padded (h : Unmarked false s) (hmarker : ¬ marker <+: s) (pad : Bool) (n : Nat) :
    Unmarked true ((if pad then spaces n else []) ++ s) := by
  cases pad with
  | false => exact .start h hmarker
  | true =>
    cases n with
    | zero => exact .start h hmarker
    | succ n => exact indented (Nat.succ_pos n) h

end Unmarked

/-! ### Scalars -/

theorem not_isBreak_of_mem_hexDigits {size k : Nat} (h : c ∈ hexDigits size k) :
    isBreak c = false := by
  have hdigit : ∀ d < 16, isBreak (Nat.digitChar d).toUpper = false := by decide
  obtain ⟨i, -, rfl⟩ := List.mem_map.mp h
  exact hdigit _ (Nat.mod_lt _ (by decide))

theorem not_isBreak_of_lookup {table : List (Nat × Char)} {k : Nat}
    (h : table.lookup k = some c) (htable : ∀ e ∈ table, isBreak e.2 = false) :
    isBreak c = false := by
  obtain ⟨before, after, rfl, -⟩ := List.lookup_eq_some_iff.mp h
  exact htable (k, c) (List.mem_append_right _ List.mem_cons_self)

/-- No escape has a line end. -/
theorem not_isBreak_of_mem_escape {d : Char} (h : d ∈ escape c) : isBreak d = false := by
  have hhex {size : Nat} {l : Char} (hl : isBreak l = false)
      (h : d ∈ '\\' :: l :: hexDigits size c.toNat) : isBreak d = false := by
    obtain rfl | h := List.mem_cons.mp h
    · rfl
    · obtain rfl | h := List.mem_cons.mp h
      · exact hl
      · exact not_isBreak_of_mem_hexDigits h
  unfold escape at h
  dsimp only at h
  split at h
  · rename_i hc
    simp only [Bool.and_eq_true, Bool.not_eq_true', decide_eq_true_eq] at hc
    obtain ⟨⟨⟨-, hbreak⟩, -⟩, -⟩ := hc
    rw [List.mem_singleton.mp h, hbreak]
  · split at h
    · rename_i l hl
      obtain rfl | h := List.mem_cons.mp h
      · rfl
      · rw [List.mem_singleton.mp h]
        exact not_isBreak_of_lookup hl (by decide)
    · split at h
      · exact hhex (by decide) h
      · split at h
        · exact hhex (by decide) h
        · exact hhex (by decide) h

/-- A quote is written twice, any other character once. -/
theorem not_isBreak_of_mem_quote (hc : isBreak c = false) {d : Char}
    (h : d ∈ if c = '\'' then ['\'', '\''] else [c]) : isBreak d = false := by
  have hd : d = c := by
    grind
  rw [hd, hc]

/-- A text between single quotes, where the lines after the first are indented. -/
theorem unmarked_singleBody (hn : 0 < n) (ht : Unmarked false t) (s : List Char) (fresh : Bool) :
    Unmarked fresh (singleBody n fresh s ++ t) := by
  induction s generalizing fresh with
  | nil =>
    cases fresh with
    | false => exact ht
    | true => exact .indented hn ht
  | cons c s ih =>
    cases hc : isBreak c with
    | true =>
      rw [singleBody, if_pos hc]
      exact .close hc (ih true)
    | false =>
      have hquote := (ih false).append_left fun _ => not_isBreak_of_mem_quote hc
      rw [singleBody, hc, if_neg Bool.false_ne_true, List.append_assoc, List.append_assoc]
      cases fresh with
      | false => exact hquote
      | true =>
        cases hspace : isSpace c with
        | false => exact .indented hn hquote
        | true =>
          -- a line that begins with a space needs no other indentation
          obtain rfl : c = ' ' := of_decide_eq_true hspace
          have hrest := (ih true).continued (List.append_ne_nil_of_right_ne_nil _ ht.ne_nil)
          change Unmarked true (' ' :: (singleBody n true s ++ t))
          exact .start (.char rfl hrest) (not_marker_prefix_of_ne (by decide))

/-- A text on lines of its own, all of them indented. A line feed follows where it has no line end
itself. -/
theorem unmarked_literalBody (hn : 0 < n) (s : List Char) (fresh : Bool) :
    Unmarked fresh (literalBody n fresh s ++
      if (s.getLast?.map isBreak).getD fresh then [] else ['\n']) := by
  induction s generalizing fresh with
  | nil =>
    cases fresh with
    | false => exact .close rfl .nil
    | true => exact .nil
  | cons c s ih =>
    have hlast : ((c :: s).getLast?.map isBreak).getD fresh =
        (s.getLast?.map isBreak).getD (isBreak c) := by
      rw [List.getLast?_cons]
      cases s.getLast? <;> rfl
    rw [hlast]
    cases hc : isBreak c with
    | true =>
      rw [literalBody, if_pos hc]
      exact .close hc (ih true)
    | false =>
      rw [literalBody, hc, if_neg Bool.false_ne_true, List.append_assoc]
      have hline := Unmarked.char hc (ih false)
      cases fresh with
      | false => exact hline
      | true => exact .indented hn hline

/-- A text without quotes stands on one line and is not taken for anything else. -/
theorem of_styleOf_plain (h : styleOf s = .plain) :
    hasIndicator s = false ∧ isMultiline s = false := by
  have hplain : allowsPlain s = true := by
    grind [styleOf]
  simp only [allowsPlain, Bool.and_eq_true, Bool.not_eq_true'] at hplain
  obtain ⟨⟨⟨⟨hindicator, -⟩, hline⟩, -⟩, -⟩ := hplain
  exact ⟨hindicator, hline⟩

theorem not_marker_prefix_of_hasIndicator (h : hasIndicator s = false) : ¬ marker <+: s := by
  simp only [hasIndicator, Bool.or_eq_false_iff] at h
  obtain ⟨⟨hmarker, -⟩, -⟩ := h
  intro hbegins
  exact Bool.eq_false_iff.mp hmarker (List.isPrefixOf_iff_prefix.mpr hbegins)

theorem newline_mem_of_styleOf (h : styleOf s = .literal) : '\n' ∈ s := by
  grind [styleOf]

/-- Characters without a line end, and a line feed. -/
theorem unmarked_line (hs : isMultiline s = false) : Unmarked false (s ++ ['\n']) :=
  Unmarked.append_left (isMultiline_eq_false_iff.mp hs) (.close rfl .nil)

theorem not_isBreak_of_mem_literalMarks (h : c ∈ literalMarks s) : isBreak c = false := by
  have hmark : c ∈ ['2', '-', '+'] := by
    grind [literalMarks]
  exact isMultiline_eq_false_iff.mp rfl c hmark

/-- A text behind the column at which its further lines are indented. -/
theorem unmarked_textLine (hn : 0 < n) (s : List Char) : Unmarked false (textLine n s) := by
  unfold textLine
  cases hstyle : styleOf s with
  | plain => exact unmarked_line (of_styleOf_plain hstyle).2
  | single =>
    have hclose : Unmarked false ['\'', '\n'] := unmarked_line (s := ['\'']) rfl
    exact .char rfl (unmarked_singleBody hn hclose s false)
  | double =>
    have hclose : Unmarked false ['"', '\n'] := unmarked_line (s := ['"']) rfl
    refine .char rfl (hclose.append_left fun c hc => ?_)
    obtain ⟨d, -, hd⟩ := List.mem_flatMap.mp hc
    exact not_isBreak_of_mem_escape hd
  | literal =>
    have hbody : Unmarked true (literalBody n true s ++
        if s.getLast?.any isBreak then [] else ['\n']) := by
      have hlines := unmarked_literalBody hn s true
      cases hlast : s.getLast? with
      | none =>
        obtain rfl := List.getLast?_eq_none_iff.mp hlast
        exact .close rfl .nil
      | some c =>
        rw [hlast] at hlines
        exact hlines
    have hline : Unmarked false ('\n' :: (literalBody n true s ++
        if s.getLast?.any isBreak then [] else ['\n'])) := .close rfl hbody
    change Unmarked false ('|' :: literalMarks s ++ '\n' :: literalBody n true s ++ _)
    rw [List.append_assoc]
    exact .char rfl (hline.append_left fun _ => not_isBreak_of_mem_literalMarks)

theorem not_isBreak_of_isNumberChar (h : NumberStyle.isNumberChar c = true) :
    isBreak c = false := by
  simp only [NumberStyle.isNumberChar, Bool.or_eq_true, decide_eq_true_eq] at h
  obtain hdigit | hsign := h
  · obtain ⟨hlow, hhigh⟩ := toNat_of_isDigit hdigit
    have hne {d : Char} (hd : d.toNat < 48 ∨ 57 < d.toNat) : c ≠ d := by
      rintro rfl
      omega
    simp only [isBreak, Bool.or_eq_false_iff, decide_eq_false_iff_not]
    refine ⟨⟨⟨⟨hne (by decide), hne (by decide)⟩, ?_⟩, ?_⟩, ?_⟩ <;> omega
  · exact isMultiline_eq_false_iff.mp rfl c hsign

theorem unmarked_scalarLine (hn : 0 < n) (v : Value) : Unmarked false (scalarLine n v) := by
  cases v with
  | null => exact unmarked_line (s := "null".toList) rfl
  | bool b =>
    cases b with
    | true => exact unmarked_line (s := "true".toList) rfl
    | false => exact unmarked_line (s := "false".toList) rfl
  | int k =>
    exact unmarked_line <| isMultiline_eq_false_iff.mpr fun c hc =>
      not_isBreak_of_isNumberChar (NumberStyle.isNumberChar_of_mem_int hc)
  | double x =>
    exact unmarked_line <| isMultiline_eq_false_iff.mpr fun c hc =>
      not_isBreak_of_isNumberChar (NumberStyle.yaml.isNumberChar_of_mem_write x c hc)
  | text s => exact unmarked_textLine hn s.toList
  | list _ => exact unmarked_line (s := "[]".toList) rfl
  | mapping _ => exact unmarked_line (s := "\x7b\x7d".toList) rfl

/-! ### Keys -/

/-- A text on one line stays on one line between single quotes. -/
theorem not_isBreak_of_mem_singleBody (hs : ∀ c ∈ s, isBreak c = false) :
    ∀ c ∈ singleBody n false s, isBreak c = false := by
  induction s with
  | nil => exact fun _ h => absurd h List.not_mem_nil
  | cons c s ih =>
    obtain ⟨hc, hs⟩ := List.forall_mem_cons.mp hs
    rw [singleBody, hc, if_neg Bool.false_ne_true]
    exact List.forall_mem_append.mpr ⟨fun _ => not_isBreak_of_mem_quote hc, ih hs⟩

/-- A simple key is written on one line, and not as something that begins with the marker. -/
theorem keyText_spec {key : String} (h : isSimpleKey key = true) :
    (∀ c ∈ keyText key, isBreak c = false) ∧ ¬ marker <+: keyText key := by
  simp only [isSimpleKey, Bool.and_eq_true, Bool.not_eq_true'] at h
  have hkey := isMultiline_eq_false_iff.mp h.1
  -- between quotes, `text` is all but the line feed
  have hquoted {quote : Char} {body : List Char} (hquote : isBreak quote = false)
      (hdash : quote ≠ '-') (hbody : ∀ c ∈ body, isBreak c = false) :
      (∀ c ∈ (quote :: body ++ [quote, '\n']).dropLast, isBreak c = false) ∧
        ¬ marker <+: (quote :: body ++ [quote, '\n']).dropLast := by
    have hdrop : (quote :: body ++ [quote, '\n']).dropLast = quote :: (body ++ [quote]) := by
      have hsplit : quote :: body ++ [quote, '\n'] = (quote :: (body ++ [quote])) ++ ['\n'] := by
        simp
      rw [hsplit, List.dropLast_concat]
    rw [hdrop]
    refine ⟨List.forall_mem_cons.mpr ⟨hquote, List.forall_mem_append.mpr ⟨hbody, ?_⟩⟩,
      not_marker_prefix_of_ne hdash⟩
    exact List.forall_mem_singleton.mpr hquote
  unfold keyText textLine
  cases hstyle : styleOf key.toList with
  | plain =>
    dsimp only
    rw [List.dropLast_concat]
    exact ⟨hkey, not_marker_prefix_of_hasIndicator (of_styleOf_plain hstyle).1⟩
  | single => exact hquoted rfl (by decide) (not_isBreak_of_mem_singleBody hkey)
  | double =>
    refine hquoted rfl (by decide) fun c hc => ?_
    obtain ⟨d, -, hd⟩ := List.mem_flatMap.mp hc
    exact not_isBreak_of_mem_escape hd
  | literal =>
    have hnewline := hkey '\n' (newline_mem_of_styleOf hstyle)
    exact absurd hnewline (by decide)

/-- Nor does a key begin with it together with what follows the key. -/
theorem not_marker_prefix_append_colon (hs : ¬ marker <+: s) (t : List Char) :
    ¬ marker <+: s ++ ':' :: t := by
  intro h
  obtain hlong | hshort := List.prefix_or_prefix_of_prefix h (List.prefix_append s (':' :: t))
  · exact hs hlong
  · obtain ⟨r, hr⟩ := hshort
    rw [← hr] at h
    cases r with
    | nil => exact hs (by rw [← hr, List.append_nil])
    | cons c r =>
      -- the colon would stand in the marker
      obtain ⟨hc, -⟩ := List.cons_prefix_cons.mp ((List.prefix_append_right_inj s).mp h)
      have hcolon : ':' ∈ marker := by
        rw [← hr, ← hc]
        exact List.mem_append_right s List.mem_cons_self
      exact absurd hcolon (by decide)

/-! ### Lists and mappings -/

/-- An entry, with its key before a colon or, marked, on lines of its own. -/
def entryText (n : Nat) (key : String) (v : Value) : List Char :=
  if isSimpleKey key then keyText key ++ ':' :: writeUnderKey n v
  else
    '?' :: ' ' :: textLine (n + 2) key.toList ++ spaces n ++ ':' :: ' ' :: write (n + 2) v

theorem writeEntries_cons (n : Nat) (pad : Bool) (key : String) (v : Value)
    (rest : List (String × Value)) : writeEntries n pad ((key, v) :: rest) =
      (if pad then spaces n else []) ++ entryText n key v ++ writeEntries n true rest := by
  rw [writeEntries, entryText]

theorem unmarked_entryText (key : String) {v : Value} (hwrite : Unmarked false (write (n + 2) v))
    (hunder : Unmarked false (writeUnderKey n v)) :
    Unmarked false (entryText n key v) ∧ ¬ marker <+: entryText n key v := by
  unfold entryText
  split
  · rename_i hsimple
    obtain ⟨hline, hmarker⟩ := keyText_spec hsimple
    exact ⟨(Unmarked.char rfl hunder).append_left hline, not_marker_prefix_append_colon hmarker _⟩
  · have hkey : Unmarked false ('?' :: ' ' :: textLine (n + 2) key.toList) :=
      .char rfl (.char rfl (unmarked_textLine (Nat.succ_pos (n + 1)) key.toList))
    have hvalue : Unmarked false (':' :: ' ' :: write (n + 2) v) := .char rfl (.char rfl hwrite)
    rw [List.append_assoc]
    refine ⟨hkey.append (hvalue.padded (not_marker_prefix_of_ne (by decide)) true n), ?_⟩
    exact not_marker_prefix_of_ne (by decide)

theorem writeEntries_ne_nil (e : String × Value) (rest : List (String × Value)) :
    writeEntries n false (e :: rest) ≠ [] := by
  obtain ⟨key, v⟩ := e
  have hentry : entryText n key v ≠ [] := by
    unfold entryText
    split <;> simp
  rw [writeEntries_cons]
  exact List.append_ne_nil_of_left_ne_nil (List.append_ne_nil_of_right_ne_nil _ hentry) _

mutual

theorem unmarked_write (n : Nat) (v : Value) : Unmarked false (write (n + 1) v) := by
  have hn := Nat.succ_pos n
  cases v with
  | null => exact unmarked_scalarLine hn .null
  | bool b => exact unmarked_scalarLine hn (.bool b)
  | int k => exact unmarked_scalarLine hn (.int k)
  | double x => exact unmarked_scalarLine hn (.double x)
  | text s => exact unmarked_scalarLine hn (.text s)
  | list items =>
    cases items with
    | nil => exact unmarked_scalarLine hn (.list [])
    | cons v vs => exact (unmarked_writeItems (n + 1) false (v :: vs)).continued (by simp [writeItems])
  | mapping entries =>
    cases entries with
    | nil => exact unmarked_scalarLine hn (.mapping [])
    | cons e rest =>
      exact (unmarked_writeEntries (n + 1) false (e :: rest)).continued (writeEntries_ne_nil e rest)

theorem unmarked_writeUnderKey (n : Nat) (v : Value) : Unmarked false (writeUnderKey n v) := by
  have hscalar : Unmarked false (' ' :: scalarLine (n + 2) v) :=
    .char rfl (unmarked_scalarLine (Nat.succ_pos (n + 1)) v)
  cases v with
  | null => exact hscalar
  | bool b => exact hscalar
  | int k => exact hscalar
  | double x => exact hscalar
  | text s => exact hscalar
  | list items =>
    cases items with
    | nil => exact hscalar
    | cons v vs => exact .close rfl (unmarked_writeItems n true (v :: vs))
  | mapping entries =>
    cases entries with
    | nil => exact hscalar
    | cons e rest => exact .close rfl (unmarked_writeEntries (n + 2) true (e :: rest))

theorem unmarked_writeItems (n : Nat) (pad : Bool) (items : List Value) :
    Unmarked true (writeItems n pad items) := by
  cases items with
  | nil => exact .nil
  | cons v vs =>
    have hitem : Unmarked false ('-' :: ' ' :: write (n + 2) v) :=
      .char rfl (.char rfl (unmarked_write (n + 1) v))
    have hmarker : ¬ marker <+: '-' :: ' ' :: write (n + 2) v := by
      simp [marker]
    exact (hitem.padded hmarker pad n).append (unmarked_writeItems n true vs)

theorem unmarked_writeEntries (n : Nat) (pad : Bool) (entries : List (String × Value)) :
    Unmarked true (writeEntries n pad entries) := by
  cases entries with
  | nil => exact .nil
  | cons e rest =>
    obtain ⟨key, v⟩ := e
    obtain ⟨hentry, hmarker⟩ := unmarked_entryText key
      (unmarked_write (n + 1) v) (unmarked_writeUnderKey n v)
    rw [writeEntries_cons]
    exact (hentry.padded hmarker pad n).append (unmarked_writeEntries n true rest)

end

/-- The document of a mapping has no line that begins with the marker. -/
theorem unmarked_text_mapping (entries : Assoc Value) :
    Unmarked true (text (.mapping entries)).toList := by
  rw [text, String.toList_ofList]
  cases entries with
  | nil =>
    have hempty : Unmarked false "\x7b\x7d\n".toList :=
      unmarked_line (s := "\x7b\x7d".toList) rfl
    exact .start hempty (by decide)
  | cons e rest => exact unmarked_writeEntries 0 false (e :: rest)

end Rollout.Yaml
