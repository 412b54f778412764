import Rollout.Proofs.Hcl.Block
import Rollout.Proofs.Kustomize
import Rollout.Proofs.Text
import Rollout.Terraform.Files

/-!
# The sample of assignments to variables

The sample has a comment for each variable that is described, and what sets it. Comments and blank
lines left out, just these assignments are left, as long as descriptions have one line each: the mark
of a comment stands before the first line of a description only, so further ones count as code.
-/

namespace Rollout

namespace Hcl

/-! ### Lines of code -/

/-- Whether a line is neither blank nor a comment. -/
def isCode (line : List Char) : Bool :=
  line.any (· ∉ [' ', '\t', '\r']) && line.head? != some '#'

/-- A text without its blank lines and comments. -/
def codeOf (text : List Char) : List Char :=
  ((Text.partsOf '\n' text).filter isCode).flatMap (· ++ ['\n'])

/-- Every line is code. -/
def AllCode (text : List Char) : Prop := ∀ line ∈ Text.partsOf '\n' text, isCode line = true

/-- Every line but the first one is code. -/
def GoesOn (text : List Char) : Prop := ∀ line ∈ (Text.partsOf '\n' text).tail, isCode line = true

/-- Whether a character makes a line code that begins with it. -/
def beginsCode (c : Char) : Bool := c ∉ [' ', '\t', '\r', '\n', '#']

section Lines

variable {a b s : List Char} {c : Char} {level : Nat}

theorem codeOf_append_line (a b : List Char) : codeOf (a ++ '\n' :: b) = codeOf a ++ codeOf b := by
  rw [codeOf, Text.partsOf_append_sep, List.filter_append, List.flatMap_append]
  rfl

theorem flatMap_line_eq (lines : List (List Char)) (h : lines ≠ []) :
    lines.flatMap (· ++ ['\n']) = ['\n'].intercalate lines ++ ['\n'] := by
  induction lines with
  | nil => exact absurd rfl h
  | cons line lines ih =>
    cases lines with
    | nil => simp
    | cons next lines =>
      rw [List.flatMap_cons, ih (List.cons_ne_nil _ _), List.intercalate_cons_cons]
      simp

theorem codeOf_of_allCode (h : AllCode s) : codeOf s = s ++ ['\n'] := by
  rw [codeOf, List.filter_eq_self.mpr h, flatMap_line_eq _ (Text.partsOf_ne_nil _ _),
    Text.intercalate_partsOf]

theorem isCode_append (h : isCode a = true) (b : List Char) : isCode (a ++ b) = true := by
  simp only [isCode, Bool.and_eq_true, List.any_append, Bool.or_eq_true] at h ⊢
  refine ⟨.inl h.1, ?_⟩
  cases a with
  | nil => exact absurd h.1 Bool.false_ne_true
  | cons c a => exact h.2

theorem isCode_indented (hc : beginsCode c = true) (level : Nat) (s : List Char) :
    isCode (indentation level ++ c :: s) = true := by
  have hne : c ≠ ' ' ∧ c ≠ '\t' ∧ c ≠ '\r' ∧ c ≠ '\n' ∧ c ≠ '#' := by simpa [beginsCode] using hc
  rw [isCode, Bool.and_eq_true]
  constructor
  · simp [hne]
  · cases level with
    | zero => simpa [indentation] using hne.2.2.2.2
    | succ level => rfl

theorem newline_notMem_indentation (level : Nat) : '\n' ∉ indentation level := by
  simp [indentation]

theorem GoesOn.of_notMem (h : '\n' ∉ s) : GoesOn s := by
  intro line hline
  rw [Text.partsOf_of_notMem h] at hline
  exact absurd hline List.not_mem_nil

theorem GoesOn.append_left (h : GoesOn s) (ha : '\n' ∉ a) : GoesOn (a ++ s) := by
  obtain ⟨w, ws, hs⟩ := List.exists_cons_of_ne_nil (Text.partsOf_ne_nil '\n' s)
  rw [GoesOn, hs] at h
  rwa [GoesOn, Text.partsOf_append_left ha hs]

theorem GoesOn.append_right (h : GoesOn s) (hb : '\n' ∉ b) : GoesOn (s ++ b) := by
  obtain ⟨before, w, hs, hwhole⟩ := Text.partsOf_append_of_notMem hb s
  rw [GoesOn, hs] at h
  rw [GoesOn, hwhole]
  cases before with
  | nil => exact fun _ hline => absurd hline List.not_mem_nil
  | cons v before =>
    simp only [List.cons_append, List.tail_cons, List.forall_mem_append,
      List.forall_mem_singleton] at h ⊢
    exact ⟨h.1, isCode_append h.2 b⟩

theorem AllCode.append_line (ha : AllCode a) (hb : AllCode b) : AllCode (a ++ '\n' :: b) := by
  rw [AllCode, Text.partsOf_append_sep, List.forall_mem_append]
  exact ⟨ha, hb⟩

theorem GoesOn.append_line (ha : GoesOn a) (hb : AllCode b) : GoesOn (a ++ '\n' :: b) := by
  rw [GoesOn, Text.partsOf_append_sep, List.tail_append_of_ne_nil (Text.partsOf_ne_nil _ _),
    List.forall_mem_append]
  exact ⟨ha, hb⟩

/-- A text that goes on with code is code if its first line begins like that. -/
theorem GoesOn.allCode (h : GoesOn (c :: s)) (hc : beginsCode c = true) (level : Nat) :
    AllCode (indentation level ++ c :: s) := by
  have hline : c ≠ '\n' := by
    rintro rfl
    exact absurd hc (by decide)
  obtain ⟨w, ws, hs⟩ := List.exists_cons_of_ne_nil (Text.partsOf_ne_nil '\n' s)
  have hparts := Text.partsOf_cons_of_ne hline hs
  rw [GoesOn, hparts, List.tail_cons] at h
  rw [AllCode, Text.partsOf_append_left (newline_notMem_indentation level) hparts,
    List.forall_mem_cons]
  exact ⟨isCode_indented hc level w, h⟩

/-- Ended lines of code in a row, and further ones behind them. -/
theorem AllCode.flatMap {α : Type} {line : α → List Char} {xs : List α}
    (h : ∀ x ∈ xs, ∃ code, line x = code ++ ['\n'] ∧ AllCode code) (hs : AllCode s) :
    AllCode (xs.flatMap line ++ s) := by
  induction xs with
  | nil => exact hs
  | cons x xs ih =>
    obtain ⟨⟨code, hline, hcode⟩, hxs⟩ := List.forall_mem_cons.mp h
    rw [List.flatMap_cons, hline, List.append_assoc, List.append_assoc]
    exact hcode.append_line (ih hxs)

end Lines

/-! ### Values -/

section Values

variable {v : Hcl}

theorem newline_notMem_quoteChars (s : String) : '\n' ∉ quoteChars s := by
  obtain ⟨inner, hinner, hwell⟩ := wellQuoted_of_readQuoted (readQuoted_quotedChars s.toList [])
  obtain rfl := List.append_cancel_right hinner
  simp [quoteChars, hwell.noBreak.1]

theorem newline_notMem_write_of_isScalar (hscalar : v.isScalar = true) (hv : v.sources = [])
    (level : Nat) : '\n' ∉ v.write level := by
  cases v with
  | null =>
    rw [write]
    decide
  | bool b =>
    rw [write]
    cases b <;> decide
  | int _ | double _ =>
    exact fun hmem => absurd (isNumberChar_of_mem_write rfl level _ hmem) (by decide)
  | text s => exact newline_notMem_quoteChars s
  | expression source => exact absurd hv (List.cons_ne_nil _ _)
  | list items => exact absurd hscalar Bool.false_ne_true
  | object entries => exact absurd hscalar Bool.false_ne_true

theorem newline_notMem_inline {items : List Hcl} {level : Nat}
    (h : ∀ v ∈ items, '\n' ∉ v.write level) : '\n' ∉ writeInline level items := by
  cases items with
  | nil => exact List.not_mem_nil
  | cons v items =>
    obtain ⟨hv, hitems⟩ := List.forall_mem_cons.mp h
    rw [writeInline_cons]
    simpa [furtherItem, hv] using hitems

theorem exists_write_eq_beginsCode (hv : v.sources = []) (level : Nat) :
    ∃ c s, v.write level = c :: s ∧ beginsCode c = true := by
  obtain ⟨c, s, hwritten, hkind⟩ := exists_write_eq_cons level hv
  refine ⟨c, s, hwritten, decide_eq_true fun hc => ?_⟩
  have hnone : ([' ', '\t', '\r', '\n', '#'].all fun c => (kindOf? c).isNone) = true := rfl
  rw [Option.isNone_iff_eq_none.mp (List.all_eq_true.mp hnone c hc)] at hkind
  exact kind?_ne_none hv hkind.symm

theorem GoesOn.itemLine {level : Nat} (h : GoesOn (v.write (level + 1))) (hv : v.sources = []) :
    ∃ code, Hcl.itemLine level v = code ++ ['\n'] ∧ AllCode code := by
  obtain ⟨c, s, hwritten, hc⟩ := exists_write_eq_beginsCode hv (level + 1)
  rw [hwritten] at h
  have hcomma : GoesOn (c :: s ++ [',']) := h.append_right (by decide)
  refine ⟨_, ?_, hcomma.allCode hc (level + 1)⟩
  rw [Hcl.itemLine, hwritten]
  simp

theorem GoesOn.entryLine {e : String × Hcl} {level : Nat} (h : GoesOn (e.2.write (level + 1))) :
    ∃ code, Hcl.entryLine level e = code ++ ['\n'] ∧ AllCode code := by
  have hkey : '\n' ∉ quoteChars e.1 ++ [' ', '=', ' '] := by
    simp [newline_notMem_quoteChars]
  refine ⟨_, ?_, (h.append_left hkey).allCode rfl (level + 1)⟩
  rw [Hcl.entryLine, quoteChars]
  simp

/-- What is written for a value without expressions goes on with lines of code. -/
theorem goesOn_write (v : Hcl) : v.sources = [] → ∀ level, GoesOn (v.write level) := by
  induction v using induct with
  | scalar v hscalar =>
    exact fun hv level => .of_notMem (newline_notMem_write_of_isScalar hscalar hv level)
  | list items ih =>
    intro hv level
    have hitems : ∀ v ∈ items, v.sources = [] := itemSources_eq_nil_iff.mp hv
    cases hall : items.all isScalar with
    | true =>
      have hinner : '\n' ∉ writeInline level items := newline_notMem_inline fun v hv =>
        newline_notMem_write_of_isScalar (List.all_eq_true.mp hall v hv) (hitems v hv) level
      rw [write_inline hall]
      exact .of_notMem (by simpa using hinner)
    | false =>
      -- every item ends its line, so the closing bracket begins one
      have hopening : GoesOn ['['] := .of_notMem (by decide)
      have hclosing : AllCode (indentation level ++ [']']) :=
        (GoesOn.of_notMem (by decide)).allCode rfl level
      rw [write_lines hall]
      refine hopening.append_line (.flatMap (fun v hv => ?_) hclosing)
      exact (ih v hv (hitems v hv) _).itemLine (hitems v hv)
  | object entries ih =>
    intro hv level
    have hentries : ∀ e ∈ entries, e.2.sources = [] := entrySources_eq_nil_iff.mp hv
    have hopening : GoesOn ['\x7b'] := .of_notMem (by decide)
    have hclosing : AllCode (indentation level ++ ['\x7d']) :=
      (GoesOn.of_notMem (by decide)).allCode rfl level
    cases entries with
    | nil => exact hopening.append_right (by decide)
    | cons e entries =>
      rw [write_entries (List.cons_ne_nil _ _)]
      refine hopening.append_line (.flatMap (fun e he => ?_) hclosing)
      exact (ih e he (hentries e he) _).entryLine

end Values

end Hcl

namespace Terraform

open Hcl

/-! ### Assignments -/

/-- What sets a variable to its example. -/
def assignment (v : Variable) : List Char :=
  v.name.toList ++ [' ', '=', ' '] ++ v.sample.write 0 ++ ['\n']

/-- The sample for several variables. -/
def sampleText (vs : List Variable) : String := String.join (vs.map sampleLines)

/-- The lines of a description behind the first one. -/
def furtherLines (v : Variable) : List (List Char) :=
  (v.description.map fun d => (Text.partsOf '\n' d.toList).tail).getD []

/-- What is code of the further lines of a description. -/
def strayCode (v : Variable) : List Char := ((furtherLines v).filter isCode).flatMap (· ++ ['\n'])

section Assignments

variable {v : Variable} {vs : List Variable}

theorem sources_emptyOfType (typeText : String) : (Variable.emptyOfType typeText).sources = [] := by
  unfold Variable.emptyOfType
  split_ifs <;> rfl

theorem sources_sample (v : Variable) : v.sample.sources = [] := by
  unfold Variable.sample
  split
  · exact sources_convert _
  · exact sources_emptyOfType _

/-- A comment of some lines, of which only the first one is marked. -/
def comment (said : List Char) : List Char := '#' :: ' ' :: (said ++ ['\n'])

/-- Of a comment, what stands behind its first line may be code. -/
theorem codeOf_comment (said rest : List Char) : codeOf (comment said ++ rest) =
    ((Text.partsOf '\n' said).tail.filter isCode).flatMap (· ++ ['\n']) ++ codeOf rest := by
  obtain ⟨w, ws, hsaid⟩ := List.exists_cons_of_ne_nil (Text.partsOf_ne_nil '\n' said)
  have hmark : isCode ('#' :: ' ' :: w) = false := by simp [isCode]
  have hcomment : comment said ++ rest = (['#', ' '] ++ said) ++ '\n' :: rest := by simp [comment]
  rw [hcomment, codeOf_append_line, codeOf, Text.partsOf_append_left (by decide) hsaid,
    List.filter_cons]
  simp [hmark, hsaid]

/-- All lines of an assignment are code, and the line behind it is blank. -/
theorem codeOf_assignment (hname : isIdentifier v.name = true) (rest : List Char) :
    codeOf (assignment v ++ '\n' :: rest) = assignment v ++ codeOf rest := by
  obtain ⟨c, cs, hcs, hc⟩ := exists_cons_of_isIdentifier hname
  have hbegins : beginsCode c = true := decide_eq_true (notMem_of_all rfl hc)
  have hline : '\n' ∉ v.name.toList ++ [' ', '=', ' '] := by
    have hname' : '\n' ∉ v.name.toList := fun hmem =>
      absurd (isIdentifierChar_of_mem hname _ hmem) (by decide)
    simpa using hname'
  have hgoesOn := (goesOn_write v.sample (sources_sample v) 0).append_left hline
  have hcode : AllCode (v.name.toList ++ [' ', '=', ' '] ++ v.sample.write 0) := by
    rw [hcs] at hgoesOn ⊢
    exact hgoesOn.allCode hbegins 0
  have hblank : codeOf ([] ++ '\n' :: rest) = codeOf rest := codeOf_append_line [] rest
  rw [assignment, List.append_assoc _ ['\n'], List.singleton_append, codeOf_append_line,
    codeOf_of_allCode hcode, ← List.nil_append ('\n' :: rest), hblank]

theorem toList_sampleLines (v : Variable) : (sampleLines v).toList =
    (v.description.map fun d => comment d.toList).getD [] ++
      ((if v.isRequired then comment "(required)".toList else []) ++ (assignment v ++ ['\n'])) := by
  have hcomment (d : String) : (s!"# {d}\n").toList = comment d.toList := by
    change ("# " ++ d ++ "\n").toList = _
    simp [comment]
  rw [sampleLines]
  cases v.description <;> cases v.isRequired <;> simp [assignment, Hcl.textAt, hcomment, comment]

theorem codeOf_sampleLines (hname : isIdentifier v.name = true) (rest : List Char) :
    codeOf ((sampleLines v).toList ++ rest) = strayCode v ++ assignment v ++ codeOf rest := by
  have hassigned : codeOf ((if v.isRequired then comment "(required)".toList else []) ++
      (assignment v ++ '\n' :: rest)) = assignment v ++ codeOf rest := by
    rw [← codeOf_assignment hname rest]
    split
    · exact codeOf_comment _ _
    · rfl
  rw [toList_sampleLines, List.append_assoc, List.append_assoc, List.append_assoc,
    List.singleton_append, List.append_assoc, ← hassigned, strayCode, furtherLines]
  cases v.description with
  | none => rfl
  | some d => exact codeOf_comment d.toList _

/-- What is left of a sample without its comments and blank lines. -/
theorem codeOf_sampleText (hnames : ∀ v ∈ vs, isIdentifier v.name = true) :
    codeOf (sampleText vs).toList = vs.flatMap fun v => strayCode v ++ assignment v := by
  rw [sampleText, String.toList_join, List.flatMap_map]
  induction vs with
  | nil => rfl
  | cons v vs ih =>
    obtain ⟨hname, hrest⟩ := List.forall_mem_cons.mp hnames
    rw [List.flatMap_cons, codeOf_sampleLines hname, ih hrest, List.flatMap_cons]

theorem strayCode_eq_nil_iff : strayCode v = [] ↔ ∀ line ∈ furtherLines v, isCode line = false := by
  simp [strayCode]

/-- Pieces in front of others leave no trace just if they are empty. -/
theorem flatMap_append_eq_iff {α : Type} {f g : α → List Char} {xs : List α} :
    (xs.flatMap fun x => f x ++ g x) = xs.flatMap g ↔ ∀ x ∈ xs, f x = [] := by
  constructor
  · intro h
    by_contra hsome
    push Not at hsome
    obtain ⟨x, hx, hne⟩ := hsome
    have hle : ∀ x ∈ xs, (g x).length ≤ (f x ++ g x).length := by simp
    have hlt : (g x).length < (f x ++ g x).length := by
      simpa using List.length_pos_of_ne_nil hne
    exact absurd (congrArg List.length h).symm (Nat.ne_of_lt (length_flatMap_lt hle ⟨x, hx, hlt⟩))
  · intro h
    refine List.flatMap_congr fun x hx => ?_
    rw [h x hx, List.nil_append]

end Assignments

theorem filter_fileOf {α : Type} {path other : String} (h : path ≠ other) (xs : List α)
    (items : List Hcl.Item) : (fileOf path xs items).filter (·.path == other) = [] := by
  have hpath : ((hclFile path items).path == other) = false := beq_false_of_ne h
  unfold fileOf
  split
  · rfl
  · rw [List.filter_singleton, hpath]
    rfl

theorem filter_files_sample (m : TerraformModule) (name directory : String) (rs : List Record) :
    (files m name directory rs).filter (·.path == "terraform.tfvars.example") =
      [.ofText "terraform.tfvars.example" (sampleText m.allVariables)] := by
  simp (disch := decide) only [files, List.filter_append, filter_fileOf]
  rfl

/-- Without comments and blank lines, a sample consists of the assignments to its variables, in
their order, just if no further line of a description is code. Such a line is left beside them. The
sample of a module is that for all its variables. -/
theorem sample_assigns_iff {vs : List Variable}
    (hnames : ∀ v ∈ vs, isIdentifier v.name = true) :
    (codeOf (sampleText vs).toList = vs.flatMap assignment ↔
      ∀ v ∈ vs, ∀ line ∈ furtherLines v, isCode line = false) ∧
    codeOf (sampleText vs).toList = (vs.flatMap fun v => strayCode v ++ assignment v) ∧
    ∀ (m : TerraformModule) (name directory : String) (rs : List Record), m.allVariables = vs →
      (files m name directory rs).filter (·.path == "terraform.tfvars.example") =
        [.ofText "terraform.tfvars.example" (sampleText vs)] := by
  refine ⟨?_, codeOf_sampleText hnames, ?_⟩
  · rw [codeOf_sampleText hnames, flatMap_append_eq_iff]
    exact forall₂_congr fun v _ => strayCode_eq_nil_iff
  · rintro m name directory rs rfl
    exact filter_files_sample m name directory rs

/-- A variable that is described in one line, with nested settings as its example, and one that is
required. -/
theorem sample_assigns_shop :
    let vs : List Variable :=
      [ { name := "tags", typeText := "map(any)", description := some "Tags # of all"
          default := some
            (.mapping [("tier", .text "#1"), ("zones", .list [.list [.text "a\n#"]])]) },
        { name := "replicas", typeText := "number" } ]
    (∀ v ∈ vs, isIdentifier v.name = true) ∧
      (∀ v ∈ vs, ∀ line ∈ furtherLines v, isCode line = false) ∧
      codeOf (sampleText vs).toList = vs.flatMap assignment := by
  intro vs
  have hnames : ∀ v ∈ vs, isIdentifier v.name = true := by decide +kernel
  have hlines : ∀ v ∈ vs, ∀ line ∈ furtherLines v, isCode line = false := by decide +kernel
  exact ⟨hnames, hlines, (sample_assigns_iff hnames).1.mpr hlines⟩

/-- A description whose second line looks like an assignment. -/
theorem stray_assignment_in_sample :
    let v : Variable :=
      { name := "zone", description := some "Zone of the cluster\nregion = \"eu\""
        default := some (.text "a") }
    isIdentifier v.name = true ∧
      codeOf (sampleText [v]).toList = "region = \"eu\"\nzone = \"a\"\n".toList ∧
      assignment v = "zone = \"a\"\n".toList ∧
      codeOf (sampleText [v]).toList ≠ [v].flatMap assignment := by
  decide +kernel

end Terraform

end Rollout
