import Rollout.Proofs.Hcl.Unambiguous

/-!
# Brackets and lines of HCL texts

A text is read from the left with the closing brackets in mind that are due: outside of quotes an
opening bracket adds one, and a closing bracket has to be the one that is due first. A text is well
nested if every bracket in it closes so, and if every line of it stands behind two blanks for each
bracket that is open there. A bracket that closes at the start of a line counts as closed.

What is written for a value is well nested whatever its texts hold.
-/

namespace Rollout.Hcl

/-! ### Brackets -/

/-- Where a character of a text stands. -/
inductive Place where
  | outside
  | quoted
  /-- Behind a backslash in quotes. -/
  | escaped

/-- Where a text is read, and the closing brackets that are due there, the innermost first. -/
structure Position where
  place : Place
  due : List Char

/-- What closes an opening bracket. -/
def closerOf? : Char → Option Char
  | '[' => some ']'
  | '\x7b' => some '\x7d'
  | _ => none

/-- Whether a character is a closing bracket. -/
def isCloser (c : Char) : Bool := c = ']' || c = '\x7d'

namespace Position

/-- The place behind a character, unless it closes a bracket that is not due. -/
def step : Position → Char → Option Position
  | ⟨.quoted, due⟩, c =>
    some ⟨if c = '"' then .outside else if c = '\\' then .escaped else .quoted, due⟩
  | ⟨.escaped, due⟩, _ => some ⟨.quoted, due⟩
  | ⟨.outside, due⟩, c =>
    if c = '"' then some ⟨.quoted, due⟩
    else if isCloser c then if due.head? = some c then some ⟨.outside, due.tail⟩ else none
    else some ⟨.outside, (closerOf? c).toList ++ due⟩

/-- The place behind a text, if all brackets in it close when they are due. -/
def after (p : Position) (text : List Char) : Option Position := text.foldlM step p

end Position

/-- The brackets that are open at a character that begins a line. -/
def openAt (due : List Char) (c : Char) : List Char := if isCloser c then due.tail else due

/-- The lines of a text at some level are indented by their brackets. -/
structure WellNested (level : Nat) (text : List Char) : Prop where
  closed : Position.after ⟨.outside, []⟩ text = some ⟨.outside, []⟩
  indented : ∀ before count c rest,
    text = before ++ (List.replicate count ' ' ++ c :: rest) → c ≠ ' ' →
    before = [] ∨ before.getLast? = some '\n' →
    ∃ due, Position.after ⟨.outside, []⟩ before = some ⟨.outside, due⟩ ∧
      count = 2 * (level + (openAt due c).length)

/-! ### Lines -/

/-- Where a text is read: at the start of a line, behind some blanks, or further on. -/
inductive Layout where
  | lineStart (count : Nat) (due : List Char)
  | midLine (p : Position)

/-- Within a line, outside of quotes. -/
abbrev Layout.within (due : List Char) : Layout := .midLine ⟨.outside, due⟩

/-- The place in a text without regard to its lines. -/
def Layout.position : Layout → Position
  | .lineStart _ due => ⟨.outside, due⟩
  | .midLine p => p

/-- A text leads from one place to another, and its lines are indented by their brackets. -/
inductive Laid (level : Nat) : Layout → List Char → Layout → Prop where
  | nil (l : Layout) : Laid level l [] l
  | blank {count : Nat} {due text : List Char} {l : Layout}
    (h : Laid level (.lineStart (count + 1) due) text l) :
    Laid level (.lineStart count due) (' ' :: text) l
  | first {c : Char} {count : Nat} {due text : List Char} {p : Position} {l : Layout}
    (hblank : c ≠ ' ') (hline : c ≠ '\n') (hcount : count = 2 * (level + (openAt due c).length))
    (hstep : Position.step ⟨.outside, due⟩ c = some p) (h : Laid level (.midLine p) text l) :
    Laid level (.lineStart count due) (c :: text) l
  | further {c : Char} {text : List Char} {p q : Position} {l : Layout}
    (hline : c ≠ '\n') (hstep : p.step c = some q) (h : Laid level (.midLine q) text l) :
    Laid level (.midLine p) (c :: text) l
  | newline {due text : List Char} {l : Layout} (h : Laid level (.lineStart 0 due) text l) :
    Laid level (.within due) ('\n' :: text) l

namespace Laid

variable {c : Char} {level count : Nat} {due text rest : List Char} {l m n : Layout}

theorem append (h : Laid level l text m) (h' : Laid level m rest n) :
    Laid level l (text ++ rest) n := by
  induction h with
  | nil => exact h'
  | blank _ ih => exact .blank (ih h')
  | first hblank hline hcount hstep _ ih => exact .first hblank hline hcount hstep (ih h')
  | further hline hstep _ ih => exact .further hline hstep (ih h')
  | newline _ ih => exact .newline (ih h')

theorem split (h : Laid level l (text ++ rest) n) :
    ∃ m, Laid level l text m ∧ Laid level m rest n := by
  induction text generalizing l with
  | nil => exact ⟨l, .nil l, h⟩
  | cons c text ih =>
    rw [List.cons_append] at h
    cases h with
    | blank h =>
      obtain ⟨m, hm, hn⟩ := ih h
      exact ⟨m, .blank hm, hn⟩
    | first hblank hline hcount hstep h =>
      obtain ⟨m, hm, hn⟩ := ih h
      exact ⟨m, .first hblank hline hcount hstep hm, hn⟩
    | further hline hstep h =>
      obtain ⟨m, hm, hn⟩ := ih h
      exact ⟨m, .further hline hstep hm, hn⟩
    | newline h =>
      obtain ⟨m, hm, hn⟩ := ih h
      exact ⟨m, .newline hm, hn⟩

/-- The lines change nothing about the brackets. -/
theorem after_eq (h : Laid level l text m) : l.position.after text = some m.position := by
  induction h with
  | nil => rfl
  | blank _ ih => exact ih
  | first _ _ _ hstep _ ih =>
    rw [Position.after, List.foldlM_cons, Layout.position, hstep]
    exact ih
  | further _ hstep _ ih =>
    rw [Position.after, List.foldlM_cons, Layout.position, hstep]
    exact ih
  | newline _ ih => exact ih

/-- Behind the end of a line the next one starts, outside of quotes. -/
theorem lineStart_of_newline (h : Laid level l (text ++ ['\n']) m) :
    ∃ due, m = .lineStart 0 due := by
  obtain ⟨k, -, hlast⟩ := h.split
  cases hlast with
  | first _ hline => exact absurd rfl hline
  | further hline => exact absurd rfl hline
  | newline h =>
    cases h
    exact ⟨_, rfl⟩

/-- A line stands behind two blanks for each bracket that is open. -/
theorem count_eq (hc : c ≠ ' ') {more : Nat}
    (h : Laid level (.lineStart count due) (List.replicate more ' ' ++ c :: rest) m) :
    count + more = 2 * (level + (openAt due c).length) := by
  induction more generalizing count with
  | zero =>
    cases h with
    | blank => exact absurd rfl hc
    | first _ _ hcount => exact hcount
  | succ more ih =>
    rw [List.replicate_succ, List.cons_append] at h
    cases h with
    | blank h =>
      rw [← ih h]
      omega
    | first hblank => exact absurd rfl hblank

/-- What is laid out from the start of a line to the start of a line is well nested. -/
theorem wellNested (h : Laid level (.lineStart 0 []) text (.lineStart 0 [])) :
    WellNested level text where
  closed := h.after_eq
  indented := by
    rintro before count c rest rfl hc hstart
    obtain ⟨m, hbefore, hline⟩ := h.split
    have hm : ∃ due, m = .lineStart 0 due := by
      obtain rfl | hlast := hstart
      · cases hbefore
        exact ⟨[], rfl⟩
      · obtain ⟨text, rfl⟩ := List.getLast?_eq_some_iff.mp hlast
        exact hbefore.lineStart_of_newline
    obtain ⟨due, rfl⟩ := hm
    refine ⟨due, hbefore.after_eq, ?_⟩
    rw [← hline.count_eq hc, Nat.zero_add]

end Laid

/-! ### Pieces of a line -/

/-- Whether a character says nothing about brackets, quotes and lines. -/
def isQuiet (c : Char) : Bool := c ∉ ['"', '[', ']', '\x7b', '\x7d', '\n']

/-- Whether a line can begin with a character, if it begins with no closing bracket. -/
def isBeginning (c : Char) : Bool := c ∉ [' ', '\n', ']', '\x7d']

/-- A text that can begin a line. -/
def Begins (text : List Char) : Prop := ∃ c rest, text = c :: rest ∧ isBeginning c = true

theorem Begins.append {text : List Char} (h : Begins text) (rest : List Char) :
    Begins (text ++ rest) := by
  obtain ⟨c, text, rfl, hc⟩ := h
  exact ⟨c, text ++ rest, rfl, hc⟩

theorem ne_of_test {p : Char → Bool} {c d : Char} (hc : p c = true) (hd : p d = false) : c ≠ d := by
  rintro rfl
  exact Bool.false_ne_true (hd.symm.trans hc)

theorem notMem_of_all {p : Char → Bool} {cs : List Char} {c : Char}
    (hnone : (cs.all fun c => !p c) = true) (h : p c = true) : c ∉ cs := by
  intro hc
  have hnot := List.all_eq_true.mp hnone c hc
  rw [h] at hnot
  exact Bool.false_ne_true hnot

namespace Laid

variable {c d : Char} {level : Nat} {due due' text : List Char} {l : Layout}

theorem step_of_isQuiet (h : isQuiet c = true) :
    Position.step ⟨.outside, due⟩ c = some ⟨.outside, due⟩ := by
  have hc : c ≠ '"' ∧ c ≠ '[' ∧ c ≠ ']' ∧ c ≠ '\x7b' ∧ c ≠ '\x7d' ∧ c ≠ '\n' := by
    simpa [isQuiet] using h
  obtain ⟨hquote, hlist, hlist', hobject, hobject', -⟩ := hc
  have hcloser : closerOf? c = none := by
    unfold closerOf?
    split <;> simp_all
  rw [Position.step, if_neg hquote, if_neg (by simp [isCloser, hlist', hobject']), hcloser]
  rfl

theorem quiet (h : text.all isQuiet = true) :
    Laid level (.within due) text (.within due) := by
  induction text with
  | nil => exact .nil _
  | cons c text ih =>
    rw [List.all_cons, Bool.and_eq_true] at h
    exact .further (ne_of_test h.1 rfl) (step_of_isQuiet h.1) (ih h.2)

theorem opening (hc : closerOf? c = some d)
    (h : Laid level (.within (d :: due)) text l) :
    Laid level (.within due) (c :: text) l := by
  unfold closerOf? at hc
  split at hc <;> cases hc
  · exact .further (by decide) rfl h
  · exact .further (by decide) rfl h

theorem step_closing (hd : isCloser d = true) :
    Position.step ⟨.outside, d :: due⟩ d = some ⟨.outside, due⟩ := by
  have hquote : d ≠ '"' := ne_of_test hd rfl
  rw [Position.step, if_neg hquote, if_pos hd, List.head?_cons, if_pos rfl, List.tail_cons]

theorem closing (hd : isCloser d = true) (h : Laid level (.within due) text l) :
    Laid level (.within (d :: due)) (d :: text) l :=
  .further (ne_of_test hd rfl) (step_closing hd) h

theorem plain {text : List Char} (hc : isSpecial c = false)
    (h : Laid level (.midLine ⟨.quoted, due⟩) text l) :
    Laid level (.midLine ⟨.quoted, due⟩) (c :: text) l := by
  obtain ⟨hquote, hback, hline, -, -⟩ := isSpecial_eq_false_iff.mp hc
  refine .further hline ?_ h
  rw [Position.step, if_neg hquote, if_neg hback]

theorem escaped {e : Char} {text : List Char} (he : unescaped? e = some c)
    (h : Laid level (.midLine ⟨.quoted, due⟩) text l) :
    Laid level (.midLine ⟨.quoted, due⟩) ('\\' :: e :: text) l := by
  have hline : e ≠ '\n' := by
    rintro rfl
    exact nomatch he
  exact .further (by decide) rfl (.further hline rfl h)

/-- Inside of quotes brackets count for nothing, and what is written for a text ends no quotes. -/
theorem quotedChars (s : List Char) :
    Laid level (.midLine ⟨.quoted, due⟩) (Hcl.quotedChars s) (.midLine ⟨.quoted, due⟩) := by
  induction s with
  | nil => exact .nil _
  | cons c s ih =>
    cases quotedHead c s with
    | escaped e he hwritten =>
      rw [hwritten]
      exact .escaped he ih
    | doubled t hc hs hwritten =>
      -- the brace that follows is written as it would be alone
      rw [hs] at ih
      rw [hwritten]
      exact .plain (isSpecial_of_isSigil hc) (.plain (isSpecial_of_isSigil hc) ih)
    | plain hc hs hwritten =>
      rw [hwritten]
      exact .plain hc ih

theorem quoteChars (s : String) :
    Laid level (.within due) (Hcl.quoteChars s) (.within due) := by
  have hclosing : Laid level (.midLine ⟨.quoted, due⟩) ['"'] (.within due) :=
    .further (by decide) rfl (.nil _)
  exact .further (by decide) rfl ((quotedChars s.toList).append hclosing)

theorem indentation (k : Nat) :
    Laid level (.lineStart 0 due) (Hcl.indentation k) (.lineStart (2 * k) due) := by
  have hblanks (more count : Nat) : Laid level (.lineStart count due) (List.replicate more ' ')
      (.lineStart (count + more) due) := by
    induction more generalizing count with
    | zero => exact .nil _
    | succ more ih =>
      have h := ih (count + 1)
      rw [Nat.add_right_comm] at h
      exact .blank h
  have h := hblanks (2 * k) 0
  rwa [Nat.zero_add] at h

/-- What is laid out within a line begins a line behind the right number of blanks. -/
theorem begin (hbegin : Begins text) (h : Laid level (.within due) text l) :
    Laid level (.lineStart (2 * (level + due.length)) due) text l := by
  obtain ⟨c, rest, rfl, hc⟩ := hbegin
  have hc' : c ≠ ' ' ∧ c ≠ '\n' ∧ c ≠ ']' ∧ c ≠ '\x7d' := by simpa [isBeginning] using hc
  obtain ⟨hblank, hline, hlist, hobject⟩ := hc'
  have hopen : openAt due c = due := if_neg (by simp [isCloser, hlist, hobject])
  cases h with
  | further _ hstep h => exact .first hblank hline (by rw [hopen]) hstep h
  | newline => exact absurd rfl hline

/-- A line of its own. -/
theorem line (hbegin : Begins text)
    (h : Laid level (.within due) text (.within due')) :
    Laid level (.lineStart 0 due) (Hcl.indentation (level + due.length) ++ text ++ ['\n'])
      (.lineStart 0 due') :=
  ((indentation _).append (h.begin hbegin)).append (.newline (.nil _))

/-- The line of a closing bracket. -/
theorem closingLine (hd : isCloser d = true) :
    Laid level (.lineStart 0 (d :: due)) (Hcl.indentation (level + due.length) ++ [d])
      (.within due) := by
  refine (indentation _).append ?_
  refine .first (ne_of_test hd rfl) (ne_of_test hd rfl) ?_ (step_closing hd) (.nil _)
  rw [openAt, if_pos hd, List.tail_cons]

theorem flatMap {α : Type} {piece : α → List Char} {xs : List α}
    (h : ∀ x ∈ xs, Laid level l (piece x) l) : Laid level l (xs.flatMap piece) l := by
  induction xs with
  | nil => exact .nil l
  | cons x xs ih =>
    obtain ⟨hx, hxs⟩ := List.forall_mem_cons.mp h
    exact hx.append (ih hxs)

end Laid

/-! ### Values -/

section Values

variable {v : Hcl} {level : Nat} {due : List Char}

theorem isQuiet_of_isNumberChar {c : Char} (h : NumberStyle.isNumberChar c = true) :
    isQuiet c = true :=
  decide_eq_true (notMem_of_all rfl h)

/-- A scalar stands within a line, at whatever level. -/
theorem laid_of_isScalar (hscalar : v.isScalar = true) (hv : v.sources = []) (k : Nat) :
    Laid level (.within due) (write k v) (.within due) := by
  cases v with
  | null => exact .quiet rfl
  | bool b =>
    cases b with
    | true => exact .quiet rfl
    | false => exact .quiet rfl
  | int _ | double _ =>
    exact .quiet (List.all_eq_true.mpr fun c hc =>
      isQuiet_of_isNumberChar (isNumberChar_of_mem_write rfl k c hc))
  | text s => exact .quoteChars s
  | expression source => exact nomatch hv
  | list items => exact nomatch hscalar
  | object entries => exact nomatch hscalar

theorem begins_quoteChars (s : String) : Begins (quoteChars s) := ⟨_, _, rfl, rfl⟩

theorem begins_write (hv : v.sources = []) (k : Nat) : Begins (write k v) := by
  obtain ⟨c, rest, hwritten, hkind⟩ := exists_write_eq_cons k hv
  refine ⟨c, rest, hwritten, decide_eq_true fun hc => ?_⟩
  have hnone : ([' ', '\n', ']', '\x7d'].all fun c => (kindOf? c).isNone) = true := rfl
  rw [Option.isNone_iff_eq_none.mp (List.all_eq_true.mp hnone c hc)] at hkind
  exact kind?_ne_none hv hkind.symm

theorem laid_inline {items : List Hcl} (hscalar : items.all isScalar = true)
    (hitems : ∀ v ∈ items, v.sources = []) (k : Nat) :
    Laid level (.within due) (writeInline k items) (.within due) := by
  have hitem (v : Hcl) (hv : v ∈ items) :
      Laid level (.within due) (write k v) (.within due) :=
    laid_of_isScalar (List.all_eq_true.mp hscalar v hv) (hitems v hv) k
  cases items with
  | nil => exact .nil _
  | cons v items =>
    obtain ⟨hv, hrest⟩ := List.forall_mem_cons.mp hitem
    rw [writeInline_cons]
    refine hv.append (.flatMap fun w hw => ?_)
    exact .further (by decide) rfl (.further (by decide) rfl (hrest w hw))

/-- What is written for a value at any place within a line is laid out by its brackets. -/
def IsLaid (level : Nat) (v : Hcl) : Prop :=
  ∀ due, Laid level (.within due) (write (level + due.length) v) (.within due)

theorem IsLaid.itemLine (h : IsLaid level v) (hv : v.sources = []) (due : List Char) :
    Laid level (.lineStart 0 (']' :: due)) (Hcl.itemLine (level + due.length) v)
      (.lineStart 0 (']' :: due)) := by
  have hcomma : Laid level (.within (']' :: due)) [','] (.within (']' :: due)) := .quiet rfl
  have hline := ((h (']' :: due)).append hcomma).line ((begins_write hv _).append _)
  simpa [Hcl.itemLine, Nat.add_assoc] using hline

theorem IsLaid.entryLine {e : String × Hcl} (h : IsLaid level e.2) (due : List Char) :
    Laid level (.lineStart 0 ('\x7d' :: due)) (Hcl.entryLine (level + due.length) e)
      (.lineStart 0 ('\x7d' :: due)) := by
  have hequals : Laid level (.within ('\x7d' :: due)) [' ', '=', ' ']
      (.within ('\x7d' :: due)) := .quiet rfl
  have hline := (((Laid.quoteChars e.1).append hequals).append (h ('\x7d' :: due))).line
    (((begins_quoteChars e.1).append _).append _)
  simpa [Hcl.entryLine, Nat.add_assoc] using hline

/-- Every value without expressions is laid out by its brackets. -/
theorem isLaid (v : Hcl) : v.sources = [] → IsLaid level v := by
  induction v using induct with
  | scalar v hscalar => exact fun hv due => laid_of_isScalar hscalar hv _
  | list items ih =>
    intro hv due
    have hitems : ∀ v ∈ items, v.sources = [] := itemSources_eq_nil_iff.mp hv
    cases hall : items.all isScalar with
    | true =>
      rw [write_inline hall]
      exact .opening rfl ((laid_inline hall hitems _).append (.closing rfl (.nil _)))
    | false =>
      rw [write_lines hall]
      refine .opening rfl (.newline (.append (.flatMap fun v hv => ?_) (.closingLine rfl)))
      exact (ih v hv (hitems v hv)).itemLine (hitems v hv) due
  | object entries ih =>
    intro hv due
    have hentries : ∀ e ∈ entries, e.2.sources = [] := entrySources_eq_nil_iff.mp hv
    cases entries with
    | nil => exact .opening rfl (.closing rfl (.nil _))
    | cons e entries =>
      rw [write_entries (List.cons_ne_nil _ _)]
      refine .opening rfl (.newline (.append (.flatMap fun e he => ?_) (.closingLine rfl)))
      exact (ih e he (hentries e he)).entryLine due

end Values

end Rollout.Hcl
