import Rollout.Chart.Template
import Rollout.Proofs.Text

/-!
# What escaping does to a text

Escaping works from the left on pairs of like braces and passes over every other
character. It therefore treats the lines of a text one by one, and a copied value is the
escape of the value's indented lines.
-/

namespace Rollout.Chart

theorem printOpen_eq :
    printOpen = ['\x7b', '\x7b', '"', '\x7b', '\x7b', '"', '\x7d', '\x7d'] := rfl

theorem printClose_eq :
    printClose = ['\x7b', '\x7b', '"', '\x7d', '\x7d', '"', '\x7d', '\x7d'] := rfl

/-- A character that may form a pair with its like. -/
def isBrace (c : Char) : Bool := c = '\x7b' || c = '\x7d'

@[simp] theorem escapeChars_nil : escapeChars [] = [] := rfl

@[simp] theorem escapeChars_opening (s : List Char) :
    escapeChars ('\x7b' :: '\x7b' :: s) = printOpen ++ escapeChars s := rfl

@[simp] theorem escapeChars_closing (s : List Char) :
    escapeChars ('\x7d' :: '\x7d' :: s) = printClose ++ escapeChars s := rfl

/-- A character stays as it is unless it is a brace that its like follows. -/
theorem escapeChars_single {c : Char} {s : List Char}
    (h : isBrace c = true → s.head? ≠ some c) : escapeChars (c :: s) = c :: escapeChars s := by
  rw [escapeChars]
  · rintro rest rfl rfl
    exact h rfl rfl
  · rintro rest rfl rfl
    exact h rfl rfl

/-- Escaping reads a pair of braces or a single character at a time. -/
theorem scan_induction {motive : List Char → Prop} (nil : motive [])
    (opening : ∀ s, motive s → motive ('\x7b' :: '\x7b' :: s))
    (closing : ∀ s, motive s → motive ('\x7d' :: '\x7d' :: s))
    (single : ∀ c s, (isBrace c = true → s.head? ≠ some c) → motive s → motive (c :: s))
    (s : List Char) : motive s := by
  fun_induction escapeChars s with
  | case1 s ih => exact opening s ih
  | case2 s ih => exact closing s ih
  | case3 c s hopen hclose ih =>
    refine single c s (fun hc hhead => ?_) ih
    obtain ⟨t, rfl⟩ := List.head?_eq_some_iff.mp hhead
    simp only [isBrace, Bool.or_eq_true, decide_eq_true_eq] at hc
    rcases hc with rfl | rfl
    · exact hopen t rfl rfl
    · exact hclose t rfl rfl
  | case4 => exact nil

/-- Escaping passes over a character that is no brace. -/
theorem escapeChars_append_cons {c : Char} (hc : isBrace c = false) (s t : List Char) :
    escapeChars (s ++ c :: t) = escapeChars s ++ c :: escapeChars t := by
  induction s using scan_induction with
  | nil => exact escapeChars_single (by simp [hc])
  | opening s ih => simp [ih]
  | closing s ih => simp [ih]
  | single d s hd ih =>
    have hnext : isBrace d = true → (s ++ c :: t).head? ≠ some d := by
      intro hbrace
      cases s with
      | nil =>
        rintro ⟨rfl⟩
        exact absurd hbrace (by simp [hc])
      | cons e s => exact hd hbrace
    rw [List.cons_append, escapeChars_single hnext, ih, escapeChars_single hd, List.cons_append]

theorem escapeChars_of_forall {p : List Char} (hp : ∀ c ∈ p, isBrace c = false)
    (s : List Char) : escapeChars (p ++ s) = p ++ escapeChars s := by
  induction p with
  | nil => rfl
  | cons c p ih =>
    have hc := hp c List.mem_cons_self
    rw [List.cons_append, escapeChars_single (by simp [hc]),
      ih fun d hd => hp d (List.mem_cons_of_mem c hd), List.cons_append]

/-- Escaping brings in quotes and braces only. -/
theorem mem_of_mem_escapeChars {c : Char} (hc : isBrace c = false) (hq : c ≠ '"')
    {s : List Char} (h : c ∈ escapeChars s) : c ∈ s := by
  simp only [isBrace, Bool.or_eq_false_iff, decide_eq_false_iff_not] at hc
  induction s using scan_induction with
  | nil => exact h
  | opening s ih =>
    simp only [escapeChars_opening, printOpen_eq, List.mem_append, List.mem_cons, hc.1, hc.2, hq,
      List.not_mem_nil, or_self, false_or] at h
    simp [ih h]
  | closing s ih =>
    simp only [escapeChars_closing, printClose_eq, List.mem_append, List.mem_cons, hc.1, hc.2, hq,
      List.not_mem_nil, or_self, false_or] at h
    simp [ih h]
  | single d s hd ih =>
    rw [escapeChars_single hd] at h
    rcases List.mem_cons.mp h with rfl | h
    · exact List.mem_cons_self
    · exact List.mem_cons_of_mem d (ih h)

/-- Joined by a character that is no brace, texts are escaped one by one. -/
theorem escapeChars_intercalate {c : Char} (hc : isBrace c = false) (ps : List (List Char)) :
    escapeChars ([c].intercalate ps) = [c].intercalate (ps.map escapeChars) := by
  induction ps with
  | nil => rfl
  | cons p ps ih =>
    cases ps with
    | nil => simp
    | cons q qs =>
      rw [List.intercalate_cons_cons, List.append_assoc, List.singleton_append,
        escapeChars_append_cons hc, ih]
      simp only [List.map_cons, List.intercalate_cons_cons, List.append_assoc,
        List.singleton_append]

theorem partsOf_escapeChars {sep : Char} (hc : isBrace sep = false) (hq : sep ≠ '"')
    (s : List Char) :
    Text.partsOf sep (escapeChars s) = (Text.partsOf sep s).map escapeChars := by
  have hjoin : escapeChars s = [sep].intercalate ((Text.partsOf sep s).map escapeChars) := by
    rw [← escapeChars_intercalate hc, Text.intercalate_partsOf]
  rw [hjoin]
  refine Text.partsOf_intercalate (by simp [Text.partsOf_ne_nil]) ?_
  intro p hp
  obtain ⟨q, hq', rfl⟩ := List.mem_map.mp hp
  exact fun h => Text.sep_notMem_of_mem_partsOf hq' (mem_of_mem_escapeChars hc hq h)

@[simp] theorem escapeChars_eq_nil {s : List Char} : escapeChars s = [] ↔ s = [] := by
  refine ⟨fun h => ?_, by rintro rfl; rfl⟩
  induction s using scan_induction with
  | nil => rfl
  | opening s ih => simp [printOpen_eq] at h
  | closing s ih => simp [printClose_eq] at h
  | single c s hc ih => simp [escapeChars_single hc] at h

/-- A last character that is no brace is the last one before the escape too. -/
theorem getLast?_of_escapeChars {c : Char} (hc : isBrace c = false)
    {s : List Char} (h : (escapeChars s).getLast? = some c) : s.getLast? = some c := by
  have hne : '\x7d' ≠ c := by
    rintro rfl
    exact absurd hc (by decide)
  induction s using scan_induction with
  | nil => exact h
  | opening s ih =>
    rw [escapeChars_opening, List.getLast?_append, printOpen_eq] at h
    cases hs : (escapeChars s).getLast? with
    | none => exact absurd (by simpa [hs] using h) hne
    | some d =>
      have hlast := ih (by simpa [hs] using h)
      simp [List.getLast?_cons, hlast]
  | closing s ih =>
    rw [escapeChars_closing, List.getLast?_append, printClose_eq] at h
    cases hs : (escapeChars s).getLast? with
    | none => exact absurd (by simpa [hs] using h) hne
    | some d =>
      have hlast := ih (by simpa [hs] using h)
      simp [List.getLast?_cons, hlast]
  | single d s hd ih =>
    rw [escapeChars_single hd, List.getLast?_cons] at h
    cases hs : (escapeChars s).getLast? with
    | none =>
      obtain rfl : s = [] := by simpa using hs
      simpa using h
    | some e =>
      have hlast := ih (by simpa [hs] using h)
      simp [List.getLast?_cons, hlast]

theorem dropReturn_append_return (s : List Char) : Text.dropReturn (s ++ ['\r']) = s := by
  simp [Text.dropReturn]

/-- The end of a line is taken off before or after the escape alike. -/
theorem dropReturn_escapeChars (s : List Char) :
    Text.dropReturn (escapeChars s) = escapeChars (Text.dropReturn s) := by
  by_cases hs : s.getLast? = some '\r'
  · obtain ⟨t, rfl⟩ := List.getLast?_eq_some_iff.mp hs
    rw [escapeChars_append_cons (by decide), escapeChars_nil, dropReturn_append_return,
      dropReturn_append_return]
  · have hesc : (escapeChars s).getLast? ≠ some '\r' :=
      fun h => hs (getLast?_of_escapeChars (by decide) h)
    rw [Text.dropReturn_of_getLast? hesc, Text.dropReturn_of_getLast? hs]

/-- A text is escaped line by line. -/
theorem linesOf_escapeChars (s : List Char) :
    Text.linesOf (escapeChars s) = (Text.linesOf s).map escapeChars := by
  have hparts : Text.partsOf '\n' (escapeChars s) = (Text.partsOf '\n' s).map escapeChars :=
    partsOf_escapeChars (by decide) (by decide) s
  obtain ⟨ps, last, hps⟩ : ∃ ps last, Text.partsOf '\n' s = ps ++ [last] :=
    ⟨_, _, (List.dropLast_concat_getLast (Text.partsOf_ne_nil '\n' s)).symm⟩
  have hreturn : (ps.map escapeChars).map Text.dropReturn =
      (ps.map Text.dropReturn).map escapeChars := by
    simp [dropReturn_escapeChars]
  rw [Text.linesOf, Text.linesOf, hparts, hps, List.map_append]
  by_cases hlast : last = []
  · simp [hlast, hreturn]
  · simp [hlast, hreturn]

theorem lines_escape (s : String) : Text.lines (escape s) = (Text.lines s).map escape := by
  simp only [Text.lines, escape, String.toList_ofList, linesOf_escapeChars, List.map_map]
  exact List.map_congr_left fun l _ => by simp [escape]

/-- The lines of a text, each behind some blanks. -/
def indented (indent : Nat) (s : String) : String :=
  let pad := String.ofList (List.replicate indent ' ')
  String.join ((Text.lines s).map fun line => pad ++ line ++ "\n")

/-- Lines that are put behind blanks and closed by a line feed are escaped one by one. -/
theorem escapeChars_flatMap_lines {pad : List Char} (hpad : ∀ c ∈ pad, isBrace c = false)
    (ls : List (List Char)) :
    escapeChars (ls.flatMap fun l => pad ++ l ++ ['\n']) =
      (ls.map escapeChars).flatMap fun l => pad ++ l ++ ['\n'] := by
  induction ls with
  | nil => rfl
  | cons l ls ih =>
    rw [List.flatMap_cons, List.append_assoc, List.append_assoc, escapeChars_of_forall hpad,
      List.singleton_append, escapeChars_append_cons (by decide), ih, List.map_cons,
      List.flatMap_cons]
    simp

/-- A copied value is the escape of the indented lines of its text. -/
theorem copied_eq_escape (indent : Nat) (v : Value) :
    copied indent v = escape (indented indent (Yaml.text v)) := by
  have hpad : ∀ c ∈ List.replicate indent ' ', isBrace c = false := by
    intro c hc
    rw [List.eq_of_mem_replicate hc]
    decide
  have hlines := escapeChars_flatMap_lines hpad ((Text.lines (Yaml.text v)).map String.toList)
  have hbreak : "\n".toList = ['\n'] := rfl
  apply String.toList_injective
  rw [copied, indented, lines_escape]
  simp only [String.toList_join, List.flatMap_map, String.toList_append, String.toList_ofList,
    escape, List.map_map, Function.comp_apply, hbreak] at hlines ⊢
  exact hlines.symm

end Rollout.Chart
