import Rollout.Chart.Template
import Rollout.Proofs.Text
import Rollout.Workload.Container

/-!
# The sections of a template

Lines in a shared section stand in the template of every chart, if they leave no place for the name
of the chart. Of what a template copies, the number of blanks before it tells where in the object
it belongs.
-/

namespace Rollout.Chart

/-! ### Shared lines -/

/-- The characters of a text with the signs for braces replaced. -/
def markedChars (s : List Char) : List Char :=
  (s.map fun c => if c = '‹' then '\x7b' else c).map fun c => if c = '›' then '\x7d' else c

theorem marked_ofList (s : List Char) :
    marked (String.ofList s) = String.ofList (markedChars s) := by
  have hopen : "‹".toList = ['‹'] ∧ "\x7b".toList = ['\x7b'] := by decide
  have hclose : "›".toList = ['›'] ∧ "\x7d".toList = ['\x7d'] := by decide
  simp only [marked, Text.replace, hopen, hclose, String.toList_ofList, Text.replaceFrom_singleton,
    markedChars]

theorem toList_marked_ofList (s : List Char) :
    (marked (String.ofList s)).toList = markedChars s := by
  rw [marked_ofList, String.toList_ofList]

theorem infix_markedChars {line s : List Char} (h : Text.hasInside line s = true) :
    markedChars line <:+: markedChars s :=
  ((Text.hasInside_iff.mp h).map _).map _

theorem suffix_markedChars {line s : List Char} (h : line.isSuffixOf s = true) :
    markedChars line <:+ markedChars s :=
  ((List.isSuffixOf_iff_suffix.mp h).map _).map _

/-- Whether a text leaves no place for the name of the chart and cannot be the end of one. -/
def isPlain : List Char → Bool
  | c :: rest => !"<chart>".toList.contains c && !rest.contains '<'
  | [] => false

/-- Whether a text may have places for the name of the chart only inside of it. -/
def isBounded : List Char → Bool
  | c :: rest =>
    !"<chart>".toList.contains c && rest.getLast?.any fun d => !"<chart>".toList.contains d
  | [] => false

theorem exists_cons_of_isPlain {line : List Char} (h : isPlain line = true) :
    ∃ c rest, line = c :: rest ∧ c ∉ "<chart>".toList ∧
      ∀ d ∈ rest, "<chart>".toList.head? ≠ some d := by
  cases line with
  | nil => exact nomatch h
  | cons c rest =>
    rw [isPlain, Bool.and_eq_true, Bool.not_eq_true', Bool.not_eq_true', List.contains_eq_mem,
      List.contains_eq_mem, decide_eq_false_iff_not, decide_eq_false_iff_not] at h
    refine ⟨c, rest, rfl, h.1, fun d hd hhead => h.2 ?_⟩
    obtain rfl : '<' = d := Option.some.inj hhead
    exact hd

theorem exists_append_of_isBounded {line : List Char} (h : isBounded line = true) :
    ∃ c mid d, line = c :: (mid ++ [d]) ∧ c ∉ "<chart>".toList ∧ d ∉ "<chart>".toList := by
  cases line with
  | nil => exact nomatch h
  | cons c rest =>
    rw [isBounded, Bool.and_eq_true, Bool.not_eq_true', List.contains_eq_mem,
      decide_eq_false_iff_not] at h
    obtain ⟨hc, hlast⟩ := h
    cases hd : rest.getLast? with
    | none => rw [hd] at hlast; exact nomatch hlast
    | some d =>
      obtain ⟨mid, rfl⟩ := List.getLast?_eq_some_iff.mp hd
      rw [hd, Option.any_some, Bool.not_eq_true', List.contains_eq_mem,
        decide_eq_false_iff_not] at hlast
      exact ⟨c, mid, d, rfl, hc, hlast⟩

/-- A template for the chart of some name has every line that leaves no place for the name. -/
theorem contains_fill_marked {line s : List Char} (hplain : isPlain (markedChars line) = true)
    (h : Text.hasInside line s = true) (chart : String) :
    Text.contains (fill (marked (String.ofList s)) chart) (marked (String.ofList line)) = true := by
  obtain ⟨c, rest, hline, hc, hrest⟩ := exists_cons_of_isPlain hplain
  have hinside := infix_markedChars h
  rw [hline] at hinside
  rw [Text.contains_iff, fill, Text.replace, String.toList_ofList, toList_marked_ofList,
    toList_marked_ofList, hline]
  exact Text.infix_replaceFrom hc hrest (by decide) hinside

/-- It ends with the lines that the template ends with. -/
theorem suffix_fill_marked {line s : List Char} (hplain : isPlain (markedChars line) = true)
    (h : line.isSuffixOf s = true) (chart : String) :
    (marked (String.ofList line)).toList <:+ (fill (marked (String.ofList s)) chart).toList := by
  obtain ⟨c, rest, hline, hc, hrest⟩ := exists_cons_of_isPlain hplain
  have hsuffix := suffix_markedChars h
  rw [hline] at hsuffix
  rw [fill, Text.replace, String.toList_ofList, toList_marked_ofList, toList_marked_ofList, hline]
  exact Text.suffix_replaceFrom hc hrest (by decide) hsuffix

/-- A line with places for the name stands there with the name filled in. -/
theorem contains_fill_fill_marked {line s : List Char}
    (hbounded : isBounded (markedChars line) = true) (h : Text.hasInside line s = true)
    (chart : String) :
    Text.contains (fill (marked (String.ofList s)) chart)
      (fill (marked (String.ofList line)) chart) = true := by
  obtain ⟨c, mid, d, hline, hc, hd⟩ := exists_append_of_isBounded hbounded
  have hinside := infix_markedChars h
  rw [hline] at hinside
  simp only [Text.contains_iff, fill, Text.replace, String.toList_ofList, toList_marked_ofList,
    hline]
  exact Text.replaceFrom_infix (by decide) hc hd hinside

theorem contains_textAll {source line : String} {sections : List Section}
    (hline : Text.contains source line = true) (h : .shared source ∈ sections) :
    Text.contains (Section.textAll sections) line = true := by
  rw [Text.contains_iff] at hline ⊢
  refine hline.trans ?_
  rw [Section.textAll, String.toList_join, List.flatMap_map]
  exact List.infix_of_mem_flatten (List.mem_map.mpr ⟨_, h, rfl⟩)

/-! ### Copied parts -/

namespace Section

theorem textAll_append (s t : List Section) : textAll (s ++ t) = textAll s ++ textAll t := by
  rw [← String.toList_inj, String.toList_append]
  simp only [textAll, String.toList_join, List.map_append, List.flatMap_append]

theorem textAll_shared (source : String) : textAll [shared source] = source := by
  rw [← String.toList_inj]
  simp [textAll, text]

variable {i j : Nat}

/-- What is copied behind a number of blanks. -/
def copiedAt (i : Nat) (s : List Section) : List Value :=
  s.filterMap fun
    | copied j v => if j = i then some v else none
    | shared _ => none

/-- The items of all lists that are copied behind a number of blanks. -/
def itemsAt (i : Nat) (s : List Section) : List Value := (copiedAt i s).flatMap Value.items

/-- The entries of all mappings that are copied behind a number of blanks. -/
def entriesAt (i : Nat) (s : List Section) : Assoc Value := (copiedAt i s).flatMap Value.entries

@[simp]
theorem itemsAt_append (i : Nat) (s t : List Section) :
    itemsAt i (s ++ t) = itemsAt i s ++ itemsAt i t := by
  simp [itemsAt, copiedAt]

@[simp]
theorem itemsAt_shared (i : Nat) (source : String) (s : List Section) :
    itemsAt i (shared source :: s) = itemsAt i s :=
  rfl

@[simp]
theorem itemsAt_nil (i : Nat) : itemsAt i [] = [] := rfl

@[simp]
theorem itemsAt_ofItems (i j : Nat) (items : List Value) :
    itemsAt i (ofItems j items) = if j = i then items else [] := by
  cases items with
  | nil => simp [ofItems]
  | cons v items =>
    show ((copiedAt i [copied j (.list (v :: items))]).flatMap Value.items) = _
    by_cases h : j = i <;> simp [copiedAt, h, Value.items, Value.items?]

@[simp]
theorem itemsAt_ofEntries (i j : Nat) (entries : Assoc Value) :
    itemsAt i (ofEntries j entries) = [] := by
  unfold ofEntries
  split
  · rfl
  · by_cases h : j = i <;> simp [itemsAt, copiedAt, h, Value.items, Value.items?]

@[simp]
theorem itemsAt_ofOption (i j : Nat) (key : String) (v : Option Value) :
    itemsAt i (ofOption j key v) = [] := by
  cases v with
  | none => rfl
  | some v => by_cases h : j = i <;> simp [ofOption, itemsAt, copiedAt, h, Value.items, Value.items?]

@[simp]
theorem entriesAt_append (i : Nat) (s t : List Section) :
    entriesAt i (s ++ t) = entriesAt i s ++ entriesAt i t := by
  simp [entriesAt, copiedAt]

@[simp]
theorem entriesAt_shared (i : Nat) (source : String) (s : List Section) :
    entriesAt i (shared source :: s) = entriesAt i s :=
  rfl

@[simp]
theorem entriesAt_nil (i : Nat) : entriesAt i [] = [] := rfl

@[simp]
theorem entriesAt_ofItems (i j : Nat) (items : List Value) : entriesAt i (ofItems j items) = [] := by
  unfold ofItems
  split
  · rfl
  · by_cases h : j = i <;> simp [entriesAt, copiedAt, h, Value.entries, Value.entries?]

@[simp]
theorem entriesAt_ofEntries (i j : Nat) (entries : Assoc Value) :
    entriesAt i (ofEntries j entries) = if j = i then entries else [] := by
  cases entries with
  | nil => simp [ofEntries]
  | cons e entries =>
    show ((copiedAt i [copied j (.mapping (e :: entries))]).flatMap Value.entries) = _
    by_cases h : j = i <;> simp [copiedAt, h, Value.entries, Value.entries?]

@[simp]
theorem entriesAt_ofOption (i j : Nat) (key : String) (v : Option Value) :
    entriesAt i (ofOption j key v) = if j = i then optionEntry key v id else [] := by
  cases v with
  | none => simp [ofOption, optionEntry]
  | some v =>
    by_cases h : j = i <;>
      simp [ofOption, entriesAt, copiedAt, h, Value.entries, Value.entries?, optionEntry]

theorem of_mem_ofItems {v : Value} {items : List Value} (h : copied i v ∈ ofItems j items) :
    i = j ∧ v.isMapping = false := by
  unfold ofItems at h
  split at h
  · exact absurd h List.not_mem_nil
  · obtain ⟨rfl, rfl⟩ := copied.inj (List.mem_singleton.mp h)
    exact ⟨rfl, rfl⟩

theorem of_mem_ofEntries {v : Value} {entries : Assoc Value}
    (h : copied i v ∈ ofEntries j entries) : i = j ∧ v.isMapping = true := by
  unfold ofEntries at h
  split at h
  · exact absurd h List.not_mem_nil
  · obtain ⟨rfl, rfl⟩ := copied.inj (List.mem_singleton.mp h)
    exact ⟨rfl, rfl⟩

theorem of_mem_ofOption {v : Value} {key : String} {o : Option Value}
    (h : copied i v ∈ ofOption j key o) : i = j ∧ v.isMapping = true := by
  cases o with
  | none => exact absurd h List.not_mem_nil
  | some u =>
    obtain ⟨rfl, rfl⟩ := copied.inj (List.mem_singleton.mp h)
    exact ⟨rfl, rfl⟩

end Section

end Rollout.Chart
