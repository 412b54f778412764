import Rollout.Proofs.Hcl.Enclosure
import Rollout.Proofs.Text

/-!
# Placeholders

A text is a placeholder if it begins with a dollar sign and a brace, and the brace that closes this
one is the last character. Such a text is written as the expression that stands between the braces,
which is balanced.

Where texts may be expressions, every text that begins and ends like a placeholder is taken for one,
whatever stands between. One placeholder behind another makes such a text, which is written with
braces that close and open what they should not.
-/

namespace Rollout.Hcl

variable {s source : String}

/-! ### The brace that closes the first one -/

namespace Enclosure

/-- What follows the character that closes the last of what is open. -/
def rest? (within : List Enclosure) : List Char → Option (List Char)
  | [] => none
  | c :: cs => (step within c).bind fun inner => if inner = [] then some cs else rest? inner cs

variable {within inner : List Enclosure} {c : Char}

theorem rest?_cons (h : step within c = some inner) (cs : List Char) :
    rest? within (c :: cs) = if inner = [] then some cs else rest? inner cs := by
  rw [rest?, h, Option.bind_some]

/-- A character closes what is not open only if it is a brace and nothing is open. -/
theorem eq_of_step_eq_none (h : step within c = none) : within = [] ∧ c = '\x7d' := by
  have hplain : InPlain within := by
    cases within with
    | nil => trivial
    | cons enclosure _ =>
      cases enclosure with
      | braces => trivial
      | quotes _ => exact absurd h (Option.some_ne_none _)
  rw [step_of_inPlain hplain, stepPlain] at h
  split_ifs at h with _ _ hc
  cases within with
  | nil => exact ⟨rfl, hc⟩
  | cons => exact absurd h (Option.some_ne_none _)

/-- A brace is closed by the first one that stands behind a balanced text. -/
theorem rest?_eq_some_iff {cs rest : List Char} : rest? (within ++ [.braces]) cs = some rest ↔
    ∃ between, cs = between ++ '\x7d' :: rest ∧ after within between = some [] := by
  have hopen (inner : List Enclosure) : inner ++ [.braces] ≠ [] := by simp
  -- the brace stays outermost while the text is read, so only what closes nothing else closes it
  induction cs generalizing within with
  | nil => simp [rest?]
  | cons c cs ih =>
    cases hstep : step within c with
    | none =>
      obtain ⟨rfl, rfl⟩ := eq_of_step_eq_none hstep
      have hclosing : step ([] ++ [.braces]) '\x7d' = some [] := rfl
      rw [rest?_cons hclosing, if_pos rfl, Option.some_inj]
      constructor
      · rintro rfl
        exact ⟨[], rfl, rfl⟩
      · rintro ⟨between, hcs, hafter⟩
        cases between with
        | nil => exact (List.cons.inj hcs).2
        | cons d between =>
          obtain ⟨rfl, -⟩ := List.cons.inj hcs
          rw [after_cons, hstep] at hafter
          exact nomatch hafter
    | some inner =>
      have hmore : InPlain [braces] := trivial
      rw [rest?_cons (step_append hmore hstep), if_neg (hopen inner)]
      refine ih.trans ?_
      constructor
      · rintro ⟨between, rfl, hafter⟩
        exact ⟨c :: between, rfl, by rw [after_cons, hstep, Option.bind_some, hafter]⟩
      · rintro ⟨between, hcs, hafter⟩
        cases between with
        | nil =>
          obtain rfl : within = [] := Option.some.inj hafter
          obtain ⟨rfl, -⟩ := List.cons.inj hcs
          exact nomatch hstep
        | cons d between =>
          obtain ⟨rfl, rfl⟩ := List.cons.inj hcs
          rw [after_cons, hstep] at hafter
          exact ⟨between, rfl, hafter⟩

end Enclosure

/-- Whether a text is one placeholder: the brace that closes its first one is its last
character. -/
def isPlaceholder (s : String) : Bool :=
  match s.toList with
  | '$' :: '\x7b' :: cs => Enclosure.rest? [.braces] cs == some []
  | _ => false

theorem isPlaceholder_iff : isPlaceholder s = true ↔
    ∃ between, s.toList = '$' :: '\x7b' :: (between ++ ['\x7d']) ∧ Balanced between := by
  unfold isPlaceholder
  split
  next cs hs =>
    have hrest : Enclosure.rest? ([] ++ [.braces]) cs = some [] ↔
        ∃ between, cs = between ++ ['\x7d'] ∧ Enclosure.after [] between = some [] :=
      Enclosure.rest?_eq_some_iff
    rw [beq_iff_eq, hs]
    simpa [Balanced] using hrest
  next hnot =>
    refine iff_of_false Bool.false_ne_true ?_
    rintro ⟨between, hs, -⟩
    exact hnot _ hs

theorem placeholder?_eq_some_iff : placeholder? s = some source ↔
    s.toList = '$' :: '\x7b' :: (source.toList ++ ['\x7d']) := by
  rw [placeholder?, Option.bind_eq_some_iff]
  constructor
  · rintro ⟨rest, hstart, hend⟩
    rw [Text.dropStart?_eq_some_iff] at hstart
    rw [Text.dropEnd?_eq_some_iff] at hend
    rw [hstart, hend]
    rfl
  · intro hs
    have hrest : (String.ofList (source.toList ++ ['\x7d'])).toList = source.toList ++ ['\x7d'] :=
      String.toList_ofList
    refine ⟨String.ofList (source.toList ++ ['\x7d']), Text.dropStart?_eq_some_iff.mpr ?_,
      Text.dropEnd?_eq_some_iff.mpr hrest⟩
    rw [hs, hrest]
    rfl

/-! ### Texts that may be expressions -/

/-- A text that begins and ends like a placeholder is one. -/
def ClosesLast (s : String) : Prop := (placeholder? s).isSome = true → isPlaceholder s = true

instance : DecidablePred ClosesLast := fun s =>
  inferInstanceAs (Decidable ((placeholder? s).isSome = true → isPlaceholder s = true))

/-- A text as an expression if it is one placeholder, and as a literal if not. -/
def ofWholeText (s : String) : Hcl := if isPlaceholder s then ofInputText s else .text s

theorem isPlaceholder_iff_balanced (h : placeholder? s = some source) :
    isPlaceholder s = true ↔ Balanced source.toList := by
  have hs := placeholder?_eq_some_iff.mp h
  rw [isPlaceholder_iff]
  constructor
  · rintro ⟨between, hbetween, hbalanced⟩
    rw [hs] at hbetween
    simp only [List.cons.injEq, true_and, List.append_cancel_right_eq] at hbetween
    rwa [hbetween]
  · exact fun hbalanced => ⟨_, hs, hbalanced⟩

theorem closesLast_of_none (h : placeholder? s = none) : ClosesLast s := by
  intro hsome
  rw [h] at hsome
  exact nomatch hsome

theorem closesLast_iff_balanced (h : placeholder? s = some source) :
    ClosesLast s ↔ Balanced source.toList := by
  have hsome : (placeholder? s).isSome = true := by rw [h, Option.isSome_some]
  rw [← isPlaceholder_iff_balanced h]
  exact ⟨fun hs => hs hsome, fun hs _ => hs⟩

theorem ofInputText_of_some (h : placeholder? s = some source) :
    ofInputText s = .expression source := by
  rw [ofInputText, h]

theorem ofInputText_of_none (h : placeholder? s = none) : ofInputText s = .text s := by
  rw [ofInputText, h]

theorem ofInputText_eq_ofWholeText_iff : ofInputText s = ofWholeText s ↔ ClosesLast s := by
  unfold ofWholeText
  cases h : placeholder? s with
  | none =>
    rw [ofInputText_of_none h, ite_self]
    exact iff_of_true rfl (closesLast_of_none h)
  | some source =>
    rw [ofInputText_of_some h, closesLast_iff_balanced h, ← isPlaceholder_iff_balanced h]
    cases isPlaceholder s <;> simp

/-- What is written for a text is balanced just if a text that looks like a placeholder is one. -/
theorem balanced_write_ofInputText_iff (level : Nat) :
    Balanced ((ofInputText s).write level) ↔ ClosesLast s := by
  cases h : placeholder? s with
  | none =>
    rw [ofInputText_of_none h]
    exact iff_of_true (balanced_quoteChars s) (closesLast_of_none h)
  | some source => rw [ofInputText_of_some h, closesLast_iff_balanced h, write]

/-! ### Texts in a value -/

mutual

/-- The texts in a value, from left to right, without the keys. -/
def inputTexts : Value → List String
  | .text s => [s]
  | .list items => inputItemTexts items
  | .mapping entries => inputEntryTexts entries
  | _ => []

def inputItemTexts : List Value → List String
  | [] => []
  | v :: vs => inputTexts v ++ inputItemTexts vs

def inputEntryTexts : List (String × Value) → List String
  | [] => []
  | (_, v) :: rest => inputTexts v ++ inputEntryTexts rest

end

section Convert

variable {f g : String → Hcl}

mutual

/-- What becomes of a value tells what becomes of each of its texts. -/
theorem convert_eq_iff : ∀ v : Value,
    convert f v = convert g v ↔ ∀ s ∈ inputTexts v, f s = g s
  | .null | .bool _ | .int _ | .double _ => by simp [convert, inputTexts]
  | .text s => by simp [convert, inputTexts]
  | .list items => by simp [convert, inputTexts, convertItems_eq_iff items]
  | .mapping entries => by simp [convert, inputTexts, convertEntries_eq_iff entries]

theorem convertItems_eq_iff : ∀ vs : List Value,
    convertItems f vs = convertItems g vs ↔ ∀ s ∈ inputItemTexts vs, f s = g s
  | [] => by simp [convertItems, inputItemTexts]
  | v :: vs => by
    rw [convertItems, convertItems, List.cons.injEq, convert_eq_iff v, convertItems_eq_iff vs,
      inputItemTexts, List.forall_mem_append]

theorem convertEntries_eq_iff : ∀ m : List (String × Value),
    convertEntries f m = convertEntries g m ↔ ∀ s ∈ inputEntryTexts m, f s = g s
  | [] => by simp [convertEntries, inputEntryTexts]
  | (key, v) :: rest => by
    rw [convertEntries, convertEntries, List.cons.injEq, Prod.mk.injEq, convert_eq_iff v,
      convertEntries_eq_iff rest, inputEntryTexts, List.forall_mem_append, and_iff_right rfl]

end

mutual

/-- The expressions in a value come from its texts. -/
theorem sources_convert_eq_flatMap : ∀ v : Value,
    (convert f v).sources = (inputTexts v).flatMap fun s => (f s).sources
  | .null | .bool _ | .int _ | .double _ => rfl
  | .text s => by rw [convert, inputTexts, List.flatMap_singleton]
  | .list items => by rw [convert, sources, inputTexts, itemSources_convertItems_eq items]
  | .mapping entries => by
    rw [convert, sources, inputTexts, entrySources_convertEntries_eq entries]

theorem itemSources_convertItems_eq : ∀ vs : List Value,
    itemSources (convertItems f vs) = (inputItemTexts vs).flatMap fun s => (f s).sources
  | [] => rfl
  | v :: vs => by
    rw [convertItems, itemSources, sources_convert_eq_flatMap v, itemSources_convertItems_eq vs,
      inputItemTexts, List.flatMap_append]

theorem entrySources_convertEntries_eq : ∀ m : List (String × Value),
    entrySources (convertEntries f m) = (inputEntryTexts m).flatMap fun s => (f s).sources
  | [] => rfl
  | (key, v) :: rest => by
    rw [convertEntries, entrySources, sources_convert_eq_flatMap v,
      entrySources_convertEntries_eq rest, inputEntryTexts, List.flatMap_append]

end

end Convert

/-- A value in which each text that is one placeholder is an expression. -/
def ofPlaceholders (v : Value) : Hcl := convert ofWholeText v

theorem ofInput_eq_ofPlaceholders_iff {v : Value} :
    ofInput v = ofPlaceholders v ↔ ∀ s ∈ inputTexts v, ClosesLast s :=
  (convert_eq_iff v).trans (forall₂_congr fun _ _ => ofInputText_eq_ofWholeText_iff)

/-- The expressions in a value are balanced if its texts that look like placeholders are. -/
theorem balanced_of_mem_sources_ofInput {v : Value} (hv : ∀ s ∈ inputTexts v, ClosesLast s) :
    ∀ source ∈ (ofInput v).sources, Balanced source.toList := by
  intro source hsource
  rw [ofInput, sources_convert_eq_flatMap, List.mem_flatMap] at hsource
  obtain ⟨s, hs, hsource⟩ := hsource
  cases h : placeholder? s with
  | none =>
    rw [ofInputText_of_none h] at hsource
    exact absurd hsource List.not_mem_nil
  | some inner =>
    rw [ofInputText_of_some h] at hsource
    obtain rfl := List.mem_singleton.mp hsource
    exact (closesLast_iff_balanced h).mp (hv s hs)

end Rollout.Hcl
