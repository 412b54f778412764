import Rollout.Compose.Project
import Rollout.Config.Source
import Rollout.Proofs.Bytes
import Rollout.Proofs.Config.EnvFile

/-!
# The environment file of a compose project

The variables of all services are written to one file, a line for each, and such a file can
be a source of data. Both go by quotes, but not by the same ones. What is written between
double quotes has its backslashes and its double quotes escaped, and the reader takes the
quotes off and leaves the rest as it stands. A value between single quotes is written as it
is, and loses them. A value with a line feed is more than one line. The variables come back
as they are if none of them has such a value and the comment before them sets no others, as it
does not if the name of the project has one line.
-/

namespace Rollout.Compose

/-! ### Values as they are written -/

/-- A character between double quotes. -/
def escapeChar (c : Char) : List Char :=
  if c = '\\' then ['\\', '\\'] else if c = '"' then ['\\', '"'] else [c]

theorem toList_envValue_of_needsQuotes {value : String} (h : needsQuotes value = true) :
    (envValue value).toList = '"' :: (value.toList.flatMap escapeChar ++ ['"']) := by
  have hescape : (fun c => (if c = '\\' then ['\\', '\\'] else [c]).flatMap
      fun e => if e = '"' then ['\\', '"'] else [e]) = escapeChar := by
    funext c
    by_cases hbackslash : c = '\\' <;> simp [escapeChar, hbackslash]
  have hold : "\\".toList = ['\\'] := rfl
  have hquote : "\"".toList = ['"'] := rfl
  have hnew : "\\\\".toList = ['\\', '\\'] := rfl
  have hescaped : "\\\"".toList = ['\\', '"'] := rfl
  rw [envValue, if_pos h]
  simp only [Text.replace, String.toList_append, String.toList_ofList, hold, hquote, hnew, hescaped,
    Text.replaceFrom_char, List.flatMap_assoc, hescape, List.cons_append, List.nil_append]

theorem envValue_of_not_needsQuotes {value : String} (h : needsQuotes value = false) :
    envValue value = value := by
  rw [envValue, h, if_neg Bool.false_ne_true]

/-- A character stays as it is, or a backslash is put before it. -/
theorem escapeChar_eq (c : Char) : escapeChar c = [c] ∧ c ≠ '\\' ∧ c ≠ '"' ∨
    escapeChar c = ['\\', c] ∧ (c = '\\' ∨ c = '"') := by
  by_cases hbackslash : c = '\\'
  · subst hbackslash
    exact .inr ⟨rfl, .inl rfl⟩
  by_cases hquote : c = '"'
  · subst hquote
    exact .inr ⟨rfl, .inr rfl⟩
  · exact .inl ⟨by rw [escapeChar, if_neg hbackslash, if_neg hquote], hbackslash, hquote⟩

theorem length_le_flatMap_escapeChar (s : List Char) :
    s.length ≤ (s.flatMap escapeChar).length := by
  induction s with
  | nil => exact Nat.le_refl 0
  | cons c s ih =>
    rw [List.flatMap_cons, List.length_append, List.length_cons]
    obtain ⟨hc, -⟩ | ⟨hc, -⟩ := escapeChar_eq c
    · rw [hc, List.length_singleton]
      omega
    · rw [hc, List.length_cons, List.length_singleton]
      omega

/-- Escaping leaves the texts without backslashes and double quotes as they are. -/
theorem flatMap_escapeChar_eq_self_iff {s : List Char} :
    s.flatMap escapeChar = s ↔ '\\' ∉ s ∧ '"' ∉ s := by
  induction s with
  | nil => simp
  | cons c s ih =>
    rw [List.flatMap_cons]
    obtain ⟨hc, hbackslash, hquote⟩ | ⟨hc, hspecial⟩ := escapeChar_eq c
    · rw [hc, List.singleton_append, List.cons.injEq, ih]
      simp [Ne.symm hbackslash, Ne.symm hquote]
    · refine iff_of_false ?_ ?_
      · -- the text gets longer by the backslash before `c`, whatever follows
        intro h
        have hlength := congrArg List.length h
        have hle := length_le_flatMap_escapeChar s
        rw [hc, List.length_append, List.length_cons, List.length_cons, List.length_nil,
          List.length_cons] at hlength
        omega
      · rintro ⟨hbackslash, hquote⟩
        rcases hspecial with rfl | rfl
        · exact hbackslash List.mem_cons_self
        · exact hquote List.mem_cons_self

theorem newline_notMem_flatMap_escapeChar {s : List Char} (h : '\n' ∉ s) :
    '\n' ∉ s.flatMap escapeChar := by
  intro hmem
  obtain ⟨c, hc, hin⟩ := List.mem_flatMap.mp hmem
  obtain ⟨hescape, -⟩ | ⟨hescape, -⟩ := escapeChar_eq c
  · rw [hescape, List.mem_singleton] at hin
    exact h (hin ▸ hc)
  · rw [hescape] at hin
    obtain rfl : '\n' = c := by simpa using hin
    exact h hc

/-! ### Values as they are read -/

/-- What is read where a value was written. -/
def valueRead (value : String) : String :=
  String.ofList (EnvFile.unquote (Text.trimmed (envValue value).toList))

/-- The value has a blank or `#`, so that it is written between quotes. -/
def hasGap (value : String) : Bool := value.toList.any fun c => Text.isBlank c || c = '#'

/-- The values that an environment file gives back. -/
structure GivenBack (value : String) : Prop where
  oneLine : '\n' ∉ value.toList
  /-- A double quote is escaped, and stays so. -/
  noQuote : '"' ∉ value.toList
  /-- So is a backslash in a value that is written between quotes. -/
  noBackslash : hasGap value = true → '\\' ∉ value.toList
  /-- A value that is written as it is has no quotes of its own to lose. -/
  notEnclosed : hasGap value = false → ¬ EnvFile.Enclosed '\'' value.toList

instance (value : String) : Decidable (GivenBack value) :=
  decidable_of_iff
    ('\n' ∉ value.toList ∧ '"' ∉ value.toList ∧ (hasGap value = true → '\\' ∉ value.toList) ∧
      (hasGap value = false → ¬ EnvFile.Enclosed '\'' value.toList))
    ⟨fun ⟨hline, hquote, hbackslash, hsingle⟩ => ⟨hline, hquote, hbackslash, hsingle⟩,
      fun h => ⟨h.oneLine, h.noQuote, h.noBackslash, h.notEnclosed⟩⟩

theorem needsQuotes_iff {value : String} :
    needsQuotes value = true ↔ '"' ∈ value.toList ∨ hasGap value = true := by
  simp only [needsQuotes, hasGap, List.any_eq_true, Bool.or_eq_true, decide_eq_true_eq]
  constructor
  · rintro ⟨c, hc, hgap | rfl⟩
    · exact .inr ⟨c, hc, hgap⟩
    · exact .inl hc
  · rintro (hquote | ⟨c, hc, hgap⟩)
    · exact ⟨'"', hquote, .inr rfl⟩
    · exact ⟨c, hc, .inl hgap⟩

/-- Neither end of a written value is blank. -/
theorem ends_envValue (value : String) :
    (∀ c ∈ (envValue value).toList.head?, Text.isBlank c = false) ∧
      ∀ c ∈ (envValue value).toList.getLast?, Text.isBlank c = false := by
  cases hquotes : needsQuotes value with
  | true =>
    rw [toList_envValue_of_needsQuotes hquotes, ← List.cons_append, List.getLast?_concat]
    constructor
    · intro c hc
      obtain rfl := Option.some.inj hc
      rfl
    · intro c hc
      obtain rfl := Option.some.inj hc
      rfl
  | false =>
    have hblank : ∀ c ∈ value.toList, Text.isBlank c = false := by
      intro c hc
      have hplain := List.any_eq_false.mp hquotes c hc
      simp only [Bool.or_eq_true, not_or] at hplain
      exact Bool.eq_false_iff.mpr hplain.1.1
    rw [envValue_of_not_needsQuotes hquotes]
    exact ⟨fun c hc => hblank c (List.mem_of_mem_head? hc),
      fun c hc => hblank c (List.mem_of_mem_getLast? hc)⟩

theorem valueRead_of_needsQuotes {value : String} (h : needsQuotes value = true) :
    valueRead value = String.ofList (value.toList.flatMap escapeChar) := by
  obtain ⟨hfirst, hlast⟩ := ends_envValue value
  rw [valueRead, Text.trimmed_of_ends hfirst hlast, toList_envValue_of_needsQuotes h,
    EnvFile.unquote_enclosed (.inl rfl)]

theorem valueRead_of_not_needsQuotes {value : String} (h : needsQuotes value = false) :
    valueRead value = String.ofList (EnvFile.unquote value.toList) := by
  obtain ⟨hfirst, hlast⟩ := ends_envValue value
  rw [valueRead, Text.trimmed_of_ends hfirst hlast, envValue_of_not_needsQuotes h]

/-- Of the values of one line, exactly those are given back that are read as they were. -/
theorem givenBack_iff {value : String} (h : '\n' ∉ value.toList) :
    GivenBack value ↔ valueRead value = value := by
  rw [← String.toList_inj]
  cases hquotes : needsQuotes value with
  | true =>
    rw [valueRead_of_needsQuotes hquotes, String.toList_ofList, flatMap_escapeChar_eq_self_iff]
    rw [needsQuotes_iff] at hquotes
    constructor
    · rintro ⟨-, hquote, hbackslash, -⟩
      exact ⟨hbackslash (hquotes.resolve_left hquote), hquote⟩
    · rintro ⟨hbackslash, hquote⟩
      have hgap := hquotes.resolve_left hquote
      exact ⟨h, hquote, fun _ => hbackslash, fun hnone => absurd hgap (Bool.eq_false_iff.mp hnone)⟩
  | false =>
    rw [valueRead_of_not_needsQuotes hquotes, String.toList_ofList, EnvFile.unquote_eq_self_iff]
    have hnot := Bool.eq_false_iff.mp hquotes
    rw [Ne, needsQuotes_iff, not_or] at hnot
    obtain ⟨hquote, hgap⟩ := hnot
    constructor
    · rintro ⟨-, -, -, hsingle⟩
      refine ⟨fun hdouble => ?_, hsingle (Bool.eq_false_iff.mpr hgap)⟩
      exact hquote (List.mem_of_mem_head? hdouble.1)
    · rintro ⟨-, hsingle⟩
      exact ⟨h, hquote, fun hsome => absurd hsome hgap, fun _ => hsingle⟩

theorem newline_notMem_envValue {value : String} (h : '\n' ∉ value.toList) :
    '\n' ∉ (envValue value).toList := by
  cases hquotes : needsQuotes value with
  | true =>
    rw [toList_envValue_of_needsQuotes hquotes]
    simpa using newline_notMem_flatMap_escapeChar h
  | false =>
    rw [envValue_of_not_needsQuotes hquotes]
    exact h

/-! ### The file -/

/-- The comment that the environment file begins with. -/
def envComment (name : String) : String := s!"# Environment for {name}\n"

theorem toList_envComment (name : String) :
    (envComment name).toList = "# Environment for ".toList ++ name.toList ++ ['\n'] := by
  have hcomment : envComment name = "# Environment for " ++ name ++ "\n" := rfl
  have hend : "\n".toList = ['\n'] := rfl
  rw [hcomment, String.toList_append, String.toList_append, hend]

/-- The line for a variable. -/
def envLine (e : String × String) : List Char := e.1.toList ++ '=' :: (envValue e.2).toList

theorem toList_envText (p : ComposeProject) : (envText p).toList =
    (envComment p.name).toList ++ p.env.flatMap fun e => envLine e ++ ['\n'] := by
  have htext : envText p = envComment p.name ++
      String.join (p.env.map fun e => e.1 ++ "=" ++ envValue e.2 ++ "\n") := rfl
  have hline (e : String × String) :
      (e.1 ++ "=" ++ envValue e.2 ++ "\n").toList = envLine e ++ ['\n'] := by
    simp [envLine]
  rw [htext, String.toList_append, String.toList_join, List.flatMap_map]
  simp only [hline]

theorem parseLine_envLine {e : String × String} (hname : EnvFile.isName e.1 = true) :
    EnvFile.parseLine (envLine e) = some (e.1, valueRead e.2) := by
  rw [envLine, EnvFile.parseLine_assignment hname (ends_envValue e.2).2, String.ofList_toList]
  rfl

/-- A line for a variable is one line, and no end of it belongs to the line end. -/
theorem linesOf_envLine {e : String × String} (hname : EnvFile.isName e.1 = true)
    (hvalue : '\n' ∉ e.2.toList) (rest : List Char) :
    Text.linesOf (envLine e ++ '\n' :: rest) = envLine e :: Text.linesOf rest := by
  have hline : '\n' ∉ envLine e := by
    rw [envLine, List.mem_append, List.mem_cons, not_or, not_or]
    exact ⟨EnvFile.notMem_of_isNameOf hname rfl, by decide, newline_notMem_envValue hvalue⟩
  have hlast : (envLine e).getLast? ≠ some '\r' := by
    intro hreturn
    rw [envLine, List.getLast?_append, List.getLast?_cons, Option.some_or,
      Option.some.injEq] at hreturn
    cases hend : (envValue e.2).toList.getLast? with
    | none =>
      rw [hend] at hreturn
      exact absurd hreturn (by decide)
    | some c =>
      rw [hend] at hreturn
      have hblank := (ends_envValue e.2).2 c hend
      rw [show c = '\r' from hreturn] at hblank
      exact absurd hblank (by decide)
  rw [Text.linesOf_line hline, Text.dropReturn_of_getLast? hlast]

/-- Lines for variables whose values are each of one line are read in their order. -/
theorem filterMap_linesOf_envLines {env : Assoc String}
    (hnames : ∀ e ∈ env, EnvFile.isName e.1 = true) (hvalues : ∀ e ∈ env, '\n' ∉ e.2.toList) :
    (Text.linesOf (env.flatMap fun e => envLine e ++ ['\n'])).filterMap EnvFile.parseLine =
      env.map fun e => (e.1, valueRead e.2) := by
  induction env with
  | nil => rfl
  | cons e env ih =>
    obtain ⟨hname, hnames⟩ := List.forall_mem_cons.mp hnames
    obtain ⟨hvalue, hvalues⟩ := List.forall_mem_cons.mp hvalues
    rw [List.flatMap_cons, List.append_assoc, List.singleton_append, linesOf_envLine hname hvalue,
      List.filterMap_cons_some (parseLine_envLine hname), ih hnames hvalues, List.map_cons]

/-- What an environment file says: what its comment says, and the variables. -/
theorem parse_envText {p : ComposeProject} (hnames : ∀ e ∈ p.env, EnvFile.isName e.1 = true)
    (hvalues : ∀ e ∈ p.env, '\n' ∉ e.2.toList) :
    EnvFile.parse (envText p) =
      EnvFile.parse (envComment p.name) ++ p.env.map fun e => (e.1, valueRead e.2) := by
  rw [EnvFile.parse, EnvFile.parse, toList_envText, toList_envComment, List.append_assoc _ ['\n'],
    List.singleton_append, Text.linesOf_append_cons, Text.linesOf_append_cons,
    List.filterMap_append, List.filterMap_append, filterMap_linesOf_envLines hnames hvalues]
  have hnil : Text.linesOf [] = [] := rfl
  rw [hnil, List.filterMap_nil, List.append_nil]

/-- A comment of one line sets no variable. -/
theorem parse_envComment_of_notMem {name : String} (h : '\n' ∉ name.toList) :
    EnvFile.parse (envComment name) = [] := by
  have hstart : '\n' ∉ "# Environment for ".toList ++ name.toList := by
    rw [List.mem_append, not_or]
    exact ⟨by decide +kernel, h⟩
  have hhash : "# Environment for ".toList ++ name.toList =
      '#' :: (" Environment for ".toList ++ name.toList) := rfl
  obtain ⟨said, hsaid⟩ := Text.exists_dropReturn_cons (c := '#') (by decide)
    (" Environment for ".toList ++ name.toList)
  rw [EnvFile.parse, toList_envComment, Text.linesOf_line hstart, hhash, hsaid,
    List.filterMap_cons_none (EnvFile.parseLine_comment said)]
  rfl

/-- An environment file is read as the variables that it was written for exactly if its
comment sets none and each value is given back. -/
theorem parse_envText_eq_iff {p : ComposeProject}
    (hnames : ∀ e ∈ p.env, EnvFile.isName e.1 = true) :
    EnvFile.parse (envText p) = p.env ↔
      EnvFile.parse (envComment p.name) = [] ∧ ∀ e ∈ p.env, GivenBack e.2 := by
  constructor
  · intro h
    -- the values are among those that were read, so each of them has one line
    have hvalues : ∀ e ∈ p.env, '\n' ∉ e.2.toList := by
      intro e he
      rw [← h] at he
      exact EnvFile.newline_notMem_of_mem_parse he
    rw [parse_envText hnames hvalues] at h
    -- and those of the variables are as many as there are in all
    have hcomment : EnvFile.parse (envComment p.name) = [] := by
      have hlength := congrArg List.length h
      rw [List.length_append, List.length_map] at hlength
      exact List.eq_nil_of_length_eq_zero (by omega)
    refine ⟨hcomment, fun e he => (givenBack_iff (hvalues e he)).mpr ?_⟩
    rw [hcomment, List.nil_append] at h
    have hsame : ∀ e ∈ p.env, (e.1, valueRead e.2) = e := by
      rw [← List.map_inj_left, h]
      exact (List.map_id' _).symm
    exact (Prod.ext_iff.mp (hsame e he)).2
  · rintro ⟨hcomment, hback⟩
    have hvalues : ∀ e ∈ p.env, '\n' ∉ e.2.toList := fun e he => (hback e he).oneLine
    rw [parse_envText hnames hvalues, hcomment, List.nil_append]
    refine (List.map_congr_left fun e he => ?_).trans (List.map_id p.env)
    rw [(givenBack_iff (hvalues e he)).mp (hback e he)]
    rfl

/-- What an environment file is as a source of data. -/
theorem contributions_envFile {tree : FileTree} {path content : String}
    (hread : tree.read path = .ok (Bytes.ofText content)) (owner : String)
    (policy : MissingSources) :
    DataSource.contributions tree owner policy (.envFile path) =
      .ok ((EnvFile.parse content).map fun e => .text e.1 e.2) := by
  have hfile : DataSource.readFile tree owner policy path = .ok (some (Bytes.ofText content)) := by
    simp only [DataSource.readFile, hread]
  rw [DataSource.contributions, hfile]
  change Except.ok ((EnvFile.parse (Bytes.lenientText (Bytes.ofText content))).map _) = _
  rw [Bytes.lenientText_ofText]

/-- Where an environment file is asked for, one is written for all variables of a project. As
a source of data, it gives these variables with their values and in their order exactly if its
comment sets none and each value is given back. -/
theorem envFile_gives_environment_iff {o : ComposeOptions} {p : ComposeProject}
    (ho : o.envFile = true) (hnames : ∀ e ∈ p.env, EnvFile.isName e.1 = true) :
    .ofText ".env" (envText p) ∈ projectFiles o p ∧
      ∀ (tree : FileTree) (path : String), tree.read path = .ok (Bytes.ofText (envText p)) →
        ∀ (owner : String) (policy : MissingSources),
          DataSource.contributions tree owner policy (.envFile path) =
              .ok (p.env.map fun e => .text e.1 e.2) ↔
            EnvFile.parse (envComment p.name) = [] ∧ ∀ e ∈ p.env, GivenBack e.2 := by
  refine ⟨?_, ?_⟩
  · rw [projectFiles, ho, if_pos rfl]
    simp
  · intro tree path hread owner policy
    have hinj : Function.Injective fun e : String × String =>
        DataSource.Contribution.text e.1 e.2 := by
      rintro ⟨name, value⟩ ⟨name', value'⟩ h
      obtain ⟨rfl, rfl⟩ := DataSource.Contribution.text.inj h
      rfl
    rw [contributions_envFile hread, Except.ok.injEq, List.map_inj_right hinj,
      parse_envText_eq_iff hnames]

/-- A project that has nothing but variables. -/
def ofEnvironment (name : String) (env : Assoc String) : ComposeProject :=
  { name := name, document := .empty, env := env, files := [], built := [] }

/-- Values with a blank or with `#` between quotes, and one that needs none. -/
theorem envFile_gives_environment_shop :
    let p := ofEnvironment "shop" [("GREETING", "hello world"), ("PORT", "8080"), ("MARK", "#1")]
    let tree := FileTree.empty.put [".env"] (.file (Bytes.ofText (envText p)))
    .ofText ".env" (envText p) ∈ projectFiles { envFile := true } p ∧
      DataSource.contributions tree "shop" .error (.envFile ".env") =
        .ok [.text "GREETING" "hello world", .text "PORT" "8080", .text "MARK" "#1"] := by
  intro p tree
  have hnames : ∀ e ∈ p.env, EnvFile.isName e.1 = true := by decide +kernel
  have hback : ∀ e ∈ p.env, GivenBack e.2 := by decide +kernel
  have hread : tree.read ".env" = .ok (Bytes.ofText (envText p)) := rfl
  obtain ⟨hfile, hgives⟩ := envFile_gives_environment_iff (o := { envFile := true }) rfl hnames
  refine ⟨hfile, ?_⟩
  apply (hgives tree ".env" hread "shop" .error).mpr
  exact ⟨parse_envComment_of_notMem (by decide +kernel), hback⟩

/-- A value with double quotes gets a backslash before each of them, and one that stands between
single quotes loses these. -/
theorem not_envFile_gives_environment_shop :
    let p := ofEnvironment "shop" [("GREETING", "say \"hi\""), ("MARK", "'x'")]
    (∀ e ∈ p.env, EnvFile.isName e.1 = true) ∧
      EnvFile.parse (envText p) = [("GREETING", "say \\\"hi\\\""), ("MARK", "x")] ∧
      EnvFile.parse (envText p) ≠ p.env := by
  decide +kernel

end Rollout.Compose
