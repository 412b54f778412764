import Rollout.Proofs.Chart.Escape

/-!
# What Helm prints for an escaped text

Helm copies the text of a template up to the next two opening braces and runs the action
that they open. For an escaped text these actions print the pairs of braces again, except
in one case: an opening brace that pairs with none before it and stands directly before an
action. Together with the braces of the action it opens another one, which is none that
Helm can read. The condition is on the runs of braces in the text alone.
-/

namespace Rollout.Chart

/-- Where in a template its reader stands. -/
inductive Place where
  /-- In the text between actions. -/
  | text
  /-- In the string literal of an action. -/
  | literal
  /-- In the action for the namespace of the release, of which some characters are to come. -/
  | action (left : List Char)

/-- The action for the namespace of the release. -/
def namespaceAction : List Char := "\x7b\x7b .Release.Namespace \x7d\x7d".toList

/-- What Helm prints for a template, read from a place in it. Text is copied up to the next
two opening braces. They open an action, which has to be one string literal directly
followed by two closing braces or, where the namespace of the release is known, the action
that prints it. Literals with escapes and other actions are not read. -/
def printFrom (ns : Option (List Char)) : Place → List Char → Option (List Char)
  | .text, '\x7b' :: '\x7b' :: '"' :: rest => printFrom ns .literal rest
  | .text, '\x7b' :: '\x7b' :: ' ' :: rest => printFrom ns (.action (namespaceAction.drop 3)) rest
  | .text, '\x7b' :: '\x7b' :: _ => none
  | .text, c :: rest => (printFrom ns .text rest).map (c :: ·)
  | .text, [] => some []
  | .literal, '"' :: '\x7d' :: '\x7d' :: rest => printFrom ns .text rest
  | .literal, '"' :: _ => none
  | .literal, '\\' :: _ => none
  | .literal, '\n' :: _ => none
  | .literal, c :: rest => (printFrom ns .literal rest).map (c :: ·)
  | .literal, [] => none
  | .action [e], c :: rest =>
    if c = e then ns.bind fun name => (printFrom ns .text rest).map (name ++ ·) else none
  | .action (e :: es), c :: rest => if c = e then printFrom ns (.action es) rest else none
  | .action _, _ => none

/-- What Helm prints for a template, if it consists of text, string literals and, where the
namespace of the release is known, the action that prints it. -/
def evaluate (ns : Option String) (template : String) : Option String :=
  (printFrom (ns.map String.toList) .text template.toList).map String.ofList

attribute [local simp] printFrom

variable {ns : Option (List Char)}

theorem printFrom_printOpen (t : List Char) :
    printFrom ns .text (printOpen ++ t) =
      (printFrom ns .text t).map (['\x7b', '\x7b'] ++ ·) := by
  simp [printOpen_eq, Function.comp_def]

theorem printFrom_printClose (t : List Char) :
    printFrom ns .text (printClose ++ t) =
      (printFrom ns .text t).map (['\x7d', '\x7d'] ++ ·) := by
  simp [printClose_eq, Function.comp_def]

theorem printFrom_namespaceAction (name t : List Char) :
    printFrom (some name) .text (namespaceAction ++ t) =
      (printFrom (some name) .text t).map (name ++ ·) := by
  have haction : namespaceAction =
      ['\x7b', '\x7b', ' ', '.', 'R', 'e', 'l', 'e', 'a', 's', 'e', '.', 'N', 'a', 'm', 'e', 's',
        'p', 'a', 'c', 'e', ' ', '\x7d', '\x7d'] := rfl
  simp [haction]

/-- A character is copied unless it opens an action together with the next. -/
theorem printFrom_cons {c : Char} {t : List Char} (h : c = '\x7b' → t.head? ≠ some '\x7b') :
    printFrom ns .text (c :: t) = (printFrom ns .text t).map (c :: ·) := by
  rw [printFrom]
  · rintro rest rfl rfl
    exact h rfl rfl
  · rintro rest rfl rfl
    exact h rfl rfl
  · rintro rest rfl rfl
    exact h rfl rfl

/-- Three opening braces open no action that Helm can read. -/
theorem printFrom_three (t : List Char) :
    printFrom ns .text ('\x7b' :: '\x7b' :: '\x7b' :: t) = none := by
  simp

/-- An odd number of opening braces, with none before them, stands directly before one of
the texts that become actions. The last of these braces pairs with no other. -/
def Fuses (stops : List (List Char)) (s : List Char) : Prop :=
  ∃ before k stop after, before.getLast? ≠ some '\x7b' ∧ stop ∈ stops ∧
    s = before ++ (List.replicate (2 * k + 1) '\x7b' ++ (stop ++ after))

section Fuses

variable {stops : List (List Char)}

theorem not_fuses_nil : ¬ Fuses stops [] := by
  rintro ⟨before, k, stop, after, -, -, h⟩
  simp [List.replicate_succ] at h

theorem Fuses.cons {s : List Char} (h : Fuses stops s) {c : Char}
    (hc : c = '\x7b' → s.head? ≠ some '\x7b') : Fuses stops (c :: s) := by
  obtain ⟨before, k, stop, after, hlast, hstop, rfl⟩ := h
  refine ⟨c :: before, k, stop, after, ?_, hstop, rfl⟩
  cases before with
  | nil =>
    rintro ⟨rfl⟩
    exact hc rfl (by simp [List.replicate_succ])
  | cons d before => simpa [List.getLast?_cons_cons] using hlast

theorem fuses_cons_iff {c : Char} (hc : c ≠ '\x7b') {s : List Char} :
    Fuses stops (c :: s) ↔ Fuses stops s := by
  refine ⟨?_, fun h => h.cons fun h' => absurd h' hc⟩
  rintro ⟨before, k, stop, after, hlast, hstop, h⟩
  cases before with
  | nil =>
    rw [List.nil_append, List.replicate_succ, List.cons_append] at h
    exact absurd (List.cons.inj h).1 hc
  | cons d before =>
    refine ⟨before, k, stop, after, ?_, hstop, (List.cons.inj h).2⟩
    cases before with
    | nil => simp
    | cons e before => simpa [List.getLast?_cons_cons] using hlast

/-- A text that becomes an action neither is empty nor begins with an opening brace. -/
def Stops (stops : List (List Char)) : Prop :=
  ∀ stop ∈ stops, ∃ c rest, c ≠ '\x7b' ∧ stop = c :: rest

theorem getLast?_tail_ne {c d : Char} {s : List Char} (h : (c :: s).getLast? ≠ some d) :
    s.getLast? ≠ some d := by
  cases s with
  | nil => simp
  | cons e s => simpa [List.getLast?_cons_cons] using h

/-- A pair of opening braces changes nothing for what follows it. -/
theorem fuses_opening_iff (hstops : Stops stops) {s : List Char} :
    Fuses stops ('\x7b' :: '\x7b' :: s) ↔ Fuses stops s := by
  constructor
  · rintro ⟨before, k, stop, after, hlast, hstop, h⟩
    obtain ⟨c, rest, hc, rfl⟩ := hstops stop hstop
    match before, k with
    | [], 0 =>
      obtain ⟨-, h⟩ := List.cons.inj h
      exact absurd (List.cons.inj h).1.symm hc
    | [], k + 1 =>
      obtain ⟨-, h⟩ := List.cons.inj h
      exact ⟨[], k, c :: rest, after, by simp, hstop, (List.cons.inj h).2⟩
    | [d], k =>
      obtain ⟨rfl, -⟩ := List.cons.inj h
      exact absurd rfl hlast
    | d :: e :: before, k =>
      obtain ⟨-, h⟩ := List.cons.inj h
      exact ⟨before, k, c :: rest, after, getLast?_tail_ne (getLast?_tail_ne hlast), hstop,
        (List.cons.inj h).2⟩
  · rintro ⟨before, k, stop, after, hlast, hstop, rfl⟩
    cases before with
    | nil => exact ⟨[], k + 1, stop, after, by simp, hstop, rfl⟩
    | cons d before =>
      exact ⟨'\x7b' :: '\x7b' :: d :: before, k, stop, after,
        by simpa [List.getLast?_cons_cons] using hlast, hstop, rfl⟩

/-- An opening brace that no other follows fuses with what becomes an action behind it. -/
theorem fuses_single_iff {s : List Char} (hs : s.head? ≠ some '\x7b') :
    Fuses stops ('\x7b' :: s) ↔ (∃ stop ∈ stops, stop <+: s) ∨ Fuses stops s := by
  constructor
  · rintro ⟨before, k, stop, after, hlast, hstop, h⟩
    match before, k with
    | [], 0 => exact .inl ⟨stop, hstop, after, (List.cons.inj h).2.symm⟩
    | [], k + 1 =>
      obtain ⟨-, rfl⟩ := List.cons.inj h
      exact absurd rfl hs
    | d :: before, k =>
      exact .inr ⟨before, k, stop, after, getLast?_tail_ne hlast, hstop, (List.cons.inj h).2⟩
  · rintro (⟨stop, hstop, after, rfl⟩ | h)
    · exact ⟨[], 0, stop, after, by simp, hstop, rfl⟩
    · exact h.cons fun _ => hs

end Fuses

/-- Two closing braces, the only text that becomes an action when a text is escaped. -/
def closing : List Char := ['\x7d', '\x7d']

theorem stops_closing : Stops [closing] := by
  intro stop hstop
  rw [List.mem_singleton.mp hstop]
  exact ⟨'\x7d', ['\x7d'], by decide, rfl⟩

/-- A text that begins with no pair of braces keeps its first character. -/
theorem head?_escapeChars {s : List Char} (hopen : s.head? ≠ some '\x7b')
    (hclose : ¬ closing <+: s) : (escapeChars s).head? = s.head? := by
  cases s with
  | nil => rfl
  | cons c s =>
    have hc : isBrace c = true → s.head? ≠ some c := by
      intro hbrace hhead
      obtain ⟨t, rfl⟩ := List.head?_eq_some_iff.mp hhead
      simp only [isBrace, Bool.or_eq_true, decide_eq_true_eq] at hbrace
      rcases hbrace with rfl | rfl
      · exact hopen rfl
      · exact hclose ⟨t, rfl⟩
    rw [escapeChars_single hc]
    rfl

/-- An escaped text comes out as it was unless one of its braces fuses with an action. -/
theorem printFrom_escapeChars (s : List Char) :
    (Fuses [closing] s → printFrom ns .text (escapeChars s) = none) ∧
      (¬ Fuses [closing] s → printFrom ns .text (escapeChars s) = some s) := by
  induction s using scan_induction with
  | nil => exact ⟨fun h => absurd h not_fuses_nil, fun _ => by simp⟩
  | opening s ih =>
    rw [fuses_opening_iff stops_closing, escapeChars_opening, printFrom_printOpen]
    exact ⟨fun h => by simp [ih.1 h], fun h => by simp [ih.2 h]⟩
  | closing s ih =>
    rw [fuses_cons_iff (by decide), fuses_cons_iff (by decide), escapeChars_closing,
      printFrom_printClose]
    exact ⟨fun h => by simp [ih.1 h], fun h => by simp [ih.2 h]⟩
  | single c s hc ih =>
    rw [escapeChars_single hc]
    by_cases hopen : c = '\x7b'
    · subst hopen
      have hs := hc (by decide)
      simp only [fuses_single_iff hs, List.mem_singleton, exists_eq_left]
      by_cases hclose : closing <+: s
      · obtain ⟨t, rfl⟩ := hclose
        exact ⟨fun _ => printFrom_three _, fun h => absurd (.inl ⟨t, rfl⟩) h⟩
      · have hhead := head?_escapeChars hs hclose
        rw [printFrom_cons fun _ => hhead ▸ hs]
        simp only [hclose, false_or]
        exact ⟨fun h => by simp [ih.1 h], fun h => by simp [ih.2 h]⟩
    · rw [fuses_cons_iff hopen, printFrom_cons fun h => absurd h hopen]
      exact ⟨fun h => by simp [ih.1 h], fun h => by simp [ih.2 h]⟩

section Mark

variable {mark : List Char}

/-- A mark stands out in a text: it is not empty and has no character of an action. -/
def IsMark (mark : List Char) : Prop :=
  mark ≠ [] ∧ ∀ c ∈ mark, isBrace c = false ∧ c ≠ '"'

theorem IsMark.head?_ne (h : IsMark mark) {c : Char} (hc : isBrace c = true ∨ c = '"') :
    mark.head? ≠ some c := by
  intro hhead
  obtain ⟨hbrace, hquote⟩ := h.2 c (List.mem_of_mem_head? hhead)
  rcases hc with hc | hc
  · exact absurd hc (by simp [hbrace])
  · exact hquote hc

theorem IsMark.not_prefix (h : IsMark mark) {c : Char} (hc : isBrace c = true)
    (s : List Char) : ¬ mark <+: c :: s := by
  rintro ⟨t, ht⟩
  obtain ⟨d, ds, rfl⟩ := List.exists_cons_of_ne_nil h.1
  exact h.head?_ne (.inl hc) (congrArg some (List.cons.inj ht).1)

theorem IsMark.head?_ne_of_mem_printOpen (h : IsMark mark) :
    ∀ c ∈ printOpen, mark.head? ≠ some c := by
  have hall : printOpen.all (fun c => isBrace c || c == '"') = true := by decide
  intro c hc
  have hc' := List.all_eq_true.mp hall c hc
  rw [Bool.or_eq_true, beq_iff_eq] at hc'
  exact h.head?_ne hc'

theorem IsMark.head?_ne_of_mem_printClose (h : IsMark mark) :
    ∀ c ∈ printClose, mark.head? ≠ some c := by
  have hall : printClose.all (fun c => isBrace c || c == '"') = true := by decide
  intro c hc
  have hc' := List.all_eq_true.mp hall c hc
  rw [Bool.or_eq_true, beq_iff_eq] at hc'
  exact h.head?_ne hc'

theorem stops_mark (h : IsMark mark) : Stops [closing, mark] := by
  intro stop hstop
  rcases List.mem_cons.mp hstop with rfl | hstop
  · exact stops_closing closing (List.mem_singleton.mpr rfl)
  · rw [List.mem_singleton.mp hstop]
    obtain ⟨c, cs, rfl⟩ := List.exists_cons_of_ne_nil h.1
    refine ⟨c, cs, ?_, rfl⟩
    rintro rfl
    exact h.head?_ne (.inl (by decide)) rfl

/-- A mark stands at the start of a text before the escape as after it. -/
theorem IsMark.prefix_escapeChars_iff (h : ∀ c ∈ mark, isBrace c = false ∧ c ≠ '"')
    (s : List Char) : mark <+: escapeChars s ↔ mark <+: s := by
  induction mark generalizing s with
  | nil => simp
  | cons m mark ih =>
    obtain ⟨hm, -⟩ := h m List.mem_cons_self
    induction s using scan_induction with
    | nil => simp
    | opening s =>
      have hne : m ≠ '\x7b' := by rintro rfl; exact absurd hm (by decide)
      simp [printOpen_eq, List.cons_prefix_cons, hne]
    | closing s =>
      have hne : m ≠ '\x7b' ∧ m ≠ '\x7d' := by
        constructor <;> (rintro rfl; exact absurd hm (by decide))
      simp [printClose_eq, List.cons_prefix_cons, hne.1, hne.2]
    | single c s hc =>
      rw [escapeChars_single hc, List.cons_prefix_cons, List.cons_prefix_cons,
        ih fun d hd => h d (List.mem_cons_of_mem m hd)]

/-- Reading a text by marks, pairs of braces and single characters. -/
theorem mark_induction (h : IsMark mark) {motive : List Char → Prop} (nil : motive [])
    (marked : ∀ s, motive s → motive (mark ++ s))
    (opening : ∀ s, motive s → motive ('\x7b' :: '\x7b' :: s))
    (closing : ∀ s, motive s → motive ('\x7d' :: '\x7d' :: s))
    (single : ∀ c s, (isBrace c = true → s.head? ≠ some c) → ¬ mark <+: c :: s → motive s →
      motive (c :: s))
    (s : List Char) : motive s := by
  induction hn : s.length using Nat.strongRecOn generalizing s with
  | ind n ih =>
    subst hn
    by_cases hprefix : mark <+: s
    · obtain ⟨t, rfl⟩ := hprefix
      have hlength : 0 < mark.length := List.length_pos_iff.mpr h.1
      exact marked t (ih t.length (by rw [List.length_append]; omega) t rfl)
    · induction s using scan_induction with
      | nil => exact nil
      | opening t => exact opening t (ih t.length (Nat.lt_succ_of_lt (Nat.lt_succ_self _)) t rfl)
      | closing t => exact closing t (ih t.length (Nat.lt_succ_of_lt (Nat.lt_succ_self _)) t rfl)
      | single c t hc => exact single c t hc hprefix (ih t.length (Nat.lt_succ_self _) t rfl)

theorem fuses_append_iff {stops : List (List Char)} {p : List Char}
    (hp : ∀ c ∈ p, isBrace c = false) (s : List Char) :
    Fuses stops (p ++ s) ↔ Fuses stops s := by
  induction p with
  | nil => rfl
  | cons c p ih =>
    have hc : c ≠ '\x7b' := by
      rintro rfl
      exact absurd (hp _ List.mem_cons_self) (by decide)
    rw [List.cons_append, fuses_cons_iff hc, ih fun d hd => hp d (List.mem_cons_of_mem c hd)]

/-- An escaped text in which marks have become namespace actions comes out with the
namespace in their place unless one of its braces fuses with an action. -/
theorem printFrom_replaceFrom (h : IsMark mark) (name s : List Char) :
    (Fuses [closing, mark] s → printFrom (some name) .text
        (Text.replaceFrom mark namespaceAction 0 (escapeChars s)) = none) ∧
      (¬ Fuses [closing, mark] s → printFrom (some name) .text
        (Text.replaceFrom mark namespaceAction 0 (escapeChars s)) =
          some (Text.replaceFrom mark name 0 s)) := by
  have hplain : ∀ c ∈ mark, isBrace c = false := fun c hc => (h.2 c hc).1
  have hstops := stops_mark h
  induction s using mark_induction h with
  | nil => exact ⟨fun h => absurd h not_fuses_nil, fun _ => by simp [Text.replaceFrom]⟩
  | marked s ih =>
    rw [fuses_append_iff hplain, escapeChars_of_forall hplain,
      Text.replaceFrom_append_self h.1, Text.replaceFrom_append_self h.1,
      printFrom_namespaceAction]
    exact ⟨fun h => by simp [ih.1 h], fun h => by simp [ih.2 h]⟩
  | opening s ih =>
    rw [fuses_opening_iff hstops, escapeChars_opening,
      Text.replaceFrom_append h.1 h.head?_ne_of_mem_printOpen, printFrom_printOpen,
      Text.replaceFrom_cons (h.not_prefix (by decide) _),
      Text.replaceFrom_cons (h.not_prefix (by decide) _)]
    exact ⟨fun h => by simp [ih.1 h], fun h => by simp [ih.2 h]⟩
  | closing s ih =>
    rw [fuses_cons_iff (by decide), fuses_cons_iff (by decide), escapeChars_closing,
      Text.replaceFrom_append h.1 h.head?_ne_of_mem_printClose, printFrom_printClose,
      Text.replaceFrom_cons (h.not_prefix (by decide) _),
      Text.replaceFrom_cons (h.not_prefix (by decide) _)]
    exact ⟨fun h => by simp [ih.1 h], fun h => by simp [ih.2 h]⟩
  | single c s hc hmark ih =>
    have hmark' : ¬ mark <+: c :: escapeChars s := by
      rw [← escapeChars_single hc, IsMark.prefix_escapeChars_iff h.2]
      exact hmark
    rw [escapeChars_single hc, Text.replaceFrom_cons hmark', Text.replaceFrom_cons hmark]
    by_cases hopen : c = '\x7b'
    · subst hopen
      have hs := hc (by decide)
      simp only [fuses_single_iff hs, List.mem_cons, List.not_mem_nil, or_false,
        exists_eq_or_imp, exists_eq_left]
      by_cases hclose : closing <+: s
      · obtain ⟨t, rfl⟩ := hclose
        have hkeep : Text.replaceFrom mark namespaceAction 0 (escapeChars (closing ++ t)) =
            printClose ++ Text.replaceFrom mark namespaceAction 0 (escapeChars t) :=
          Text.replaceFrom_append h.1 (h.head?_ne_of_mem_printClose) _
        rw [hkeep]
        exact ⟨fun _ => printFrom_three _, fun hn => absurd (.inl (.inl ⟨t, rfl⟩)) hn⟩
      · by_cases hbound : mark <+: s
        · obtain ⟨t, rfl⟩ := hbound
          rw [escapeChars_of_forall hplain, Text.replaceFrom_append_self h.1]
          exact ⟨fun _ => printFrom_three _, fun hn => absurd (.inl (.inr ⟨t, rfl⟩)) hn⟩
        · have hhead := head?_escapeChars hs hclose
          have hbound' : ¬ mark <+: escapeChars s := by
            rw [IsMark.prefix_escapeChars_iff h.2]
            exact hbound
          have hnext : (Text.replaceFrom mark namespaceAction 0 (escapeChars s)).head? ≠
              some '\x7b' := by
            rw [Text.head?_replaceFrom hbound', hhead]
            exact hs
          rw [printFrom_cons fun _ => hnext]
          simp only [hclose, hbound, or_self, false_or]
          exact ⟨fun h => by simp [ih.1 h], fun h => by simp [ih.2 h]⟩
    · rw [fuses_cons_iff hopen, printFrom_cons fun h => absurd h hopen]
      exact ⟨fun h => by simp [ih.1 h], fun h => by simp [ih.2 h]⟩

end Mark

theorem isMark_namespaceMark : IsMark namespaceMark.toList := by
  have hall : namespaceMark.toList.all (fun c => !isBrace c && c != '"') = true := by decide
  refine ⟨by decide, fun c hc => ?_⟩
  have hc' := List.all_eq_true.mp hall c hc
  rw [Bool.and_eq_true, Bool.not_eq_true', bne_iff_ne] at hc'
  exact hc'

/-- The record whose text becomes a template: with the mark for a namespace if it has one. -/
def boundRecord (r : Record) : Record :=
  if Kind.isClusterScoped r.kind then r else r.setNamespace namespaceMark

theorem toList_recordText (r : Record) :
    (recordText r).toList = Text.replaceFrom namespaceMark.toList namespaceAction 0
      (escapeChars (Yaml.text (boundRecord r).toValue).toList) := by
  have haction : (marked "‹‹ .Release.Namespace ››").toList = namespaceAction := by decide
  rw [recordText, Text.replace, String.toList_ofList, haction, escape, String.toList_ofList]
  rfl

/-- What is printed if and only if nothing fuses is told by whether something does. -/
theorem evaluate_iff {ns : Option String} {template text : String} {bad : Prop}
    (h : (bad → printFrom (ns.map String.toList) .text template.toList = none) ∧
      (¬ bad → printFrom (ns.map String.toList) .text template.toList = some text.toList)) :
    (evaluate ns template = some text ↔ ¬ bad) ∧ (evaluate ns template = none ↔ bad) := by
  by_cases hbad : bad
  · have hnone : evaluate ns template = none := by simp [evaluate, h.1 hbad]
    simp [hnone, hbad]
  · have hsome : evaluate ns template = some text := by
      simp [evaluate, h.2 hbad, String.ofList_toList]
    simp [hsome, hbad]

/-- The template of a record comes out as the record, in the namespace of the release, exactly if
none of its opening braces without a partner stands directly before two closing ones or before the
namespace. -/
theorem evaluate_recordText_iff (r : Record) (ns : String) :
    (evaluate (some ns) (recordText r) =
        some (Text.replace (Yaml.text (boundRecord r).toValue) namespaceMark ns) ↔
        ¬ Fuses [closing, namespaceMark.toList] (Yaml.text (boundRecord r).toValue).toList) ∧
      (evaluate (some ns) (recordText r) = none ↔
        Fuses [closing, namespaceMark.toList] (Yaml.text (boundRecord r).toValue).toList) := by
  apply evaluate_iff
  rw [toList_recordText, Text.replace, String.toList_ofList]
  exact printFrom_replaceFrom isMark_namespaceMark ns.toList _

/-- If Helm can read the template of a record, it prints the bound record with the namespace of the
release in the place of the mark. -/
theorem eq_replace_of_evaluate_recordText {r : Record} {ns text : String}
    (h : evaluate (some ns) (recordText r) = some text) :
    text = Text.replace (Yaml.text (boundRecord r).toValue) namespaceMark ns := by
  obtain ⟨hsome, hnone⟩ := evaluate_recordText_iff r ns
  by_cases hfuses :
      Fuses [closing, namespaceMark.toList] (Yaml.text (boundRecord r).toValue).toList
  · rw [hnone.mpr hfuses] at h
    exact absurd h nofun
  · rw [hsome.mpr hfuses] at h
    exact (Option.some.inj h).symm

/-- Escaped texts, copied values and copied records come out as they were generated, a
record with the namespace of the release in the place of its own, exactly if no opening
brace without a partner stands directly before two closing ones or, in a record, before
the namespace. Otherwise Helm cannot read the template. -/
theorem evaluate_escaped_iff (s : String) (indent : Nat) (v : Value) (r : Record) (ns : String) :
    ((evaluate none (escape s) = some s ↔ ¬ Fuses [closing] s.toList) ∧
      (evaluate none (escape s) = none ↔ Fuses [closing] s.toList)) ∧
    ((evaluate none (copied indent v) = some (indented indent (Yaml.text v)) ↔
        ¬ Fuses [closing] (indented indent (Yaml.text v)).toList) ∧
      (evaluate none (copied indent v) = none ↔
        Fuses [closing] (indented indent (Yaml.text v)).toList)) ∧
    ((evaluate (some ns) (recordText r) =
        some (Text.replace (Yaml.text (boundRecord r).toValue) namespaceMark ns) ↔
        ¬ Fuses [closing, namespaceMark.toList] (Yaml.text (boundRecord r).toValue).toList) ∧
      (evaluate (some ns) (recordText r) = none ↔
        Fuses [closing, namespaceMark.toList] (Yaml.text (boundRecord r).toValue).toList)) := by
  have hescape (s : String) : (evaluate none (escape s) = some s ↔ ¬ Fuses [closing] s.toList) ∧
      (evaluate none (escape s) = none ↔ Fuses [closing] s.toList) := by
    apply evaluate_iff
    rw [escape, String.toList_ofList]
    exact printFrom_escapeChars s.toList
  refine ⟨hescape s, ?_, evaluate_recordText_iff r ns⟩
  rw [copied_eq_escape]
  exact hescape (indented indent (Yaml.text v))

/-- An empty mapping inside another one in JSON is a text that Helm cannot print. -/
theorem evaluate_escape_nested_mapping :
    evaluate none (escape "\x7b\"a\":\x7b\x7d\x7d") = none := by decide

end Rollout.Chart
