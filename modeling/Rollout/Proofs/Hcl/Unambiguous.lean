import Rollout.Proofs.Decimal.Written
import Rollout.Proofs.Hcl.Expression
import Rollout.Proofs.Hcl.Quote

/-!
# Values of HCL told apart by their texts

No two values without expressions are written alike. The first character of a text tells what kind
of value it is, a number ends where no character of a number follows, a text at its closing quote,
and a list or an object where its closing bracket stands in place of a further item.
-/

namespace Rollout.Hcl

variable {v w : Hcl} {level : Nat} {r r' : List Char}

/-- What holds of scalars, and of lists and objects once it holds of all that is in them, holds of
every value. -/
@[elab_as_elim]
theorem induct {P : Hcl → Prop} (v : Hcl) (scalar : ∀ v, v.isScalar = true → P v)
    (list : ∀ items, (∀ v ∈ items, P v) → P (.list items))
    (object : ∀ entries, (∀ e ∈ entries, P e.2) → P (.object entries)) : P v :=
  @Hcl.rec P (fun items => ∀ v ∈ items, P v) (fun entries => ∀ e ∈ entries, P e.2) (fun e => P e.2)
    (scalar _ rfl) (fun _ => scalar _ rfl) (fun _ => scalar _ rfl) (fun _ => scalar _ rfl)
    (fun _ => scalar _ rfl) (fun _ => scalar _ rfl) list object
    (fun _ h => absurd h List.not_mem_nil) (fun _ _ hv hvs => List.forall_mem_cons.mpr ⟨hv, hvs⟩)
    (fun _ h => absurd h List.not_mem_nil) (fun _ _ he hes => List.forall_mem_cons.mpr ⟨he, hes⟩)
    (fun _ _ hv => hv) v

/-! ### Pieces of a text -/

/-- Nothing that a run of certain characters could go on with. -/
def EndsRun (p : Char → Bool) (rest : List Char) : Prop := ∀ c ∈ rest.head?, p c = false

theorem endsRun_cons {p : Char → Bool} {c : Char} (h : p c = false) (rest : List Char) :
    EndsRun p (c :: rest) := by
  intro d hd
  obtain rfl := Option.some.inj hd
  exact h

/-- Runs of characters are told apart where neither could go on. -/
theorem run_append_inj {p : Char → Bool} {a b : List Char} (ha : ∀ c ∈ a, p c = true)
    (hb : ∀ c ∈ b, p c = true) (hr : EndsRun p r) (hr' : EndsRun p r') (h : a ++ r = b ++ r') :
    a = b ∧ r = r' := by
  have hspan := congrArg (List.span p) h
  rw [span_append ha hr, span_append hb hr'] at hspan
  exact Prod.mk.inj hspan

/-- A piece is told apart if whatever else is good and stands in front of an equal text is the same
piece, and the texts go on equally, so far as they may go on like that. -/
def ToldApart {α : Type} (piece : α → List Char) (Good : α → Prop) (Next : List Char → Prop)
    (x : α) : Prop :=
  ∀ y r r', Good y → Next r → Next r' → piece x ++ r = piece y ++ r' → x = y ∧ r = r'

section Pieces

variable {α : Type} {piece : α → List Char} {Good : α → Prop} {Next : List Char → Prop}
  {closing : List Char} {xs ys : List α}

/-- Pieces in a row are told apart if each is, and none looks like what closes the row. -/
theorem flatMap_append_inj (hpiece : ∀ x r, Next (piece x ++ r))
    (hclosing : ∀ r, Next (closing ++ r)) (hstop : ∀ x r r', piece x ++ r ≠ closing ++ r')
    (hxs : ∀ x ∈ xs, ToldApart piece Good Next x) (hys : ∀ y ∈ ys, Good y)
    (h : xs.flatMap piece ++ (closing ++ r) = ys.flatMap piece ++ (closing ++ r')) :
    xs = ys ∧ r = r' := by
  have hnext : ∀ (zs : List α) (r : List Char), Next (zs.flatMap piece ++ (closing ++ r)) := by
    intro zs r
    cases zs with
    | nil => exact hclosing r
    | cons z zs =>
      rw [List.flatMap_cons, List.append_assoc]
      exact hpiece z _
  induction xs generalizing ys with
  | nil =>
    cases ys with
    | nil => exact ⟨rfl, List.append_cancel_left h⟩
    | cons y ys =>
      rw [List.flatMap_cons, List.append_assoc] at h
      exact absurd h.symm (hstop y _ _)
  | cons x xs ih =>
    cases ys with
    | nil =>
      rw [List.flatMap_cons, List.append_assoc] at h
      exact absurd h (hstop x _ _)
    | cons y ys =>
      obtain ⟨hx, hxs'⟩ := List.forall_mem_cons.mp hxs
      obtain ⟨hy, hys'⟩ := List.forall_mem_cons.mp hys
      rw [List.flatMap_cons, List.append_assoc, List.flatMap_cons, List.append_assoc] at h
      obtain ⟨rfl, hrest⟩ := hx y _ _ hy (hnext xs r) (hnext ys r') h
      obtain ⟨rfl, hr⟩ := ih hxs' hys' hrest
      exact ⟨rfl, hr⟩

end Pieces

/-! ### Kinds of values -/

/-- What the first character of a text tells of a value. -/
inductive Kind where
  | null
  | bool (b : Bool)
  | number
  | text
  | list
  | object

/-- The kind of a value. An expression has none. -/
def kind? : Hcl → Option Kind
  | .null => some .null
  | .bool b => some (.bool b)
  | .int _ | .double _ => some .number
  | .text _ => some .text
  | .expression _ => none
  | .list _ => some .list
  | .object _ => some .object

/-- The kind of the values whose texts begin with a character. -/
def kindOf? (c : Char) : Option Kind :=
  if NumberStyle.isNumberChar c then some .number
  else
    match c with
    | 'n' => some .null
    | 't' => some (.bool true)
    | 'f' => some (.bool false)
    | '"' => some .text
    | '[' => some .list
    | '\x7b' => some .object
    | _ => none

theorem kindOf?_number {text : List Char} (hne : text ≠ [])
    (hall : ∀ c ∈ text, NumberStyle.isNumberChar c = true) :
    ∃ c rest, text = c :: rest ∧ kindOf? c = some .number := by
  obtain ⟨c, rest, rfl⟩ := List.exists_cons_of_ne_nil hne
  exact ⟨c, rest, rfl, if_pos (hall c List.mem_cons_self)⟩

theorem exists_write_eq_cons (level : Nat) (h : v.sources = []) :
    ∃ c rest, write level v = c :: rest ∧ kindOf? c = v.kind? := by
  cases v with
  | null => exact ⟨_, _, rfl, rfl⟩
  | bool b => cases b <;> exact ⟨_, _, rfl, rfl⟩
  | int n =>
    exact kindOf?_number (NumberStyle.int_ne_nil n) fun _ => NumberStyle.isNumberChar_of_mem_int
  | double x =>
    exact kindOf?_number (NumberStyle.json.write_ne_nil x)
      (NumberStyle.json.isNumberChar_of_mem_write x)
  | text s => exact ⟨_, _, rfl, rfl⟩
  | expression source => exact nomatch h
  | list items =>
    rw [write]
    split <;> exact ⟨_, _, rfl, rfl⟩
  | object entries => cases entries <;> exact ⟨_, _, rfl, rfl⟩

theorem kind?_ne_none (h : v.sources = []) : v.kind? ≠ none := by
  cases v with
  | expression source => exact nomatch h
  | _ => exact nofun

/-- Where equal texts begin with two values, the values are of one kind. -/
theorem kind?_eq_of_append (hv : v.sources = []) (hw : w.sources = [])
    (h : write level v ++ r = write level w ++ r') : v.kind? = w.kind? := by
  obtain ⟨c, rest, hc, hkind⟩ := exists_write_eq_cons level hv
  obtain ⟨d, rest', hd, hkind'⟩ := exists_write_eq_cons level hw
  rw [hc, hd] at h
  rw [← hkind, (List.cons.inj h).1, hkind']

/-! ### Values -/

/-- What may follow a value: nothing that its last number could go on with. -/
abbrev EndsNumber (rest : List Char) : Prop := EndsRun NumberStyle.isNumberChar rest

/-- A value is told apart at some level if no other one is written like it there. -/
abbrev Told (level : Nat) (v : Hcl) : Prop :=
  ToldApart (write level) (fun w => w.sources = []) EndsNumber v

theorem isNumberChar_of_mem_write (hv : v.kind? = some .number) (level : Nat) :
    ∀ c ∈ write level v, NumberStyle.isNumberChar c = true := by
  cases v with
  | int n => exact fun _ => NumberStyle.isNumberChar_of_mem_int
  | double x => exact NumberStyle.json.isNumberChar_of_mem_write x
  | _ => exact nomatch hv

theorem eq_of_number (hv : v.kind? = some .number) (hw : w.kind? = some .number)
    (h : write level v = write level w) : v = w := by
  cases v with
  | int n =>
    cases w with
    | int m => exact congrArg Hcl.int (NumberStyle.int_injective h)
    | double y => exact absurd h (NumberStyle.json.int_ne_write rfl n y)
    | _ => exact nomatch hw
  | double x =>
    cases w with
    | int m => exact absurd h.symm (NumberStyle.json.int_ne_write rfl m x)
    | double y => exact congrArg Hcl.double (NumberStyle.json.write_injective h)
    | _ => exact nomatch hw
  | _ => exact nomatch hv

theorem told_of_isScalar (hscalar : v.isScalar = true) (hv : v.sources = []) : Told level v := by
  intro w r r' hw hr hr' h
  have hkind := kind?_eq_of_append hv hw h
  cases v with
  | null =>
    cases w with
    | null => exact ⟨rfl, List.append_cancel_left h⟩
    | _ => exact nomatch hkind
  | bool b =>
    cases w with
    | bool b' =>
      obtain ⟨⟩ := hkind
      exact ⟨rfl, List.append_cancel_left h⟩
    | _ => exact nomatch hkind
  | int _ | double _ =>
    obtain ⟨heq, hrest⟩ := run_append_inj (isNumberChar_of_mem_write rfl level)
      (isNumberChar_of_mem_write hkind.symm level) hr hr' h
    exact ⟨eq_of_number rfl hkind.symm heq, hrest⟩
  | text s =>
    cases w with
    | text s' =>
      obtain ⟨heq, hrest⟩ := quoteChars_append_inj h
      exact ⟨congrArg Hcl.text heq, hrest⟩
    | _ => exact nomatch hkind
  | expression source => exact nomatch hv
  | list items => exact nomatch hscalar
  | object entries => exact nomatch hscalar

/-! ### Lists and objects -/

theorem itemSources_eq_nil_iff {items : List Hcl} :
    itemSources items = [] ↔ ∀ v ∈ items, v.sources = [] := by
  induction items with
  | nil => simp [itemSources]
  | cons v items ih => rw [itemSources, List.append_eq_nil_iff, ih, List.forall_mem_cons]

/-- An item behind the first one of a line. -/
def furtherItem (level : Nat) (v : Hcl) : List Char := ',' :: ' ' :: write level v

/-- The line of an item. -/
def itemLine (level : Nat) (v : Hcl) : List Char :=
  indentation (level + 1) ++ write (level + 1) v ++ [',', '\n']

/-- The line of an entry. -/
def entryLine (level : Nat) (e : String × Hcl) : List Char :=
  indentation (level + 1) ++ quoteChars e.1 ++ [' ', '=', ' '] ++ write (level + 1) e.2 ++ ['\n']

theorem writeInline_cons (level : Nat) (v : Hcl) (items : List Hcl) :
    writeInline level (v :: items) = write level v ++ items.flatMap (furtherItem level) := by
  induction items generalizing v with
  | nil => exact (List.append_nil _).symm
  | cons w items ih =>
    rw [writeInline, ih, List.flatMap_cons, furtherItem]
    · simp
    · nofun

theorem writeItems_eq_flatMap (level : Nat) (items : List Hcl) :
    writeItems level items = items.flatMap (itemLine level) := by
  induction items with
  | nil => rfl
  | cons v items ih => simp [writeItems, ih, itemLine]

theorem writeEntries_eq_flatMap (level : Nat) (entries : List (String × Hcl)) :
    writeEntries level entries = entries.flatMap (entryLine level) := by
  induction entries with
  | nil => rfl
  | cons e entries ih => simp [writeEntries, ih, entryLine]

theorem write_inline {items : List Hcl} (h : items.all isScalar = true) (level : Nat) :
    write level (.list items) = '[' :: (writeInline level items ++ [']']) := by
  rw [write, if_pos h]
  rfl

theorem write_lines {items : List Hcl} (h : items.all isScalar = false) (level : Nat) :
    write level (.list items) =
      '[' :: '\n' :: (items.flatMap (itemLine level) ++ (indentation level ++ [']'])) := by
  rw [write, if_neg (by simp [h]), writeItems_eq_flatMap]
  simp

theorem write_entries {entries : List (String × Hcl)} (h : entries ≠ []) (level : Nat) :
    write level (.object entries) =
      '\x7b' :: '\n' :: (entries.flatMap (entryLine level) ++ (indentation level ++ ['\x7d'])) := by
  rw [write, writeEntries_eq_flatMap]
  · simp
  · exact h

theorem indentation_succ (level : Nat) :
    indentation (level + 1) = indentation level ++ [' ', ' '] := by
  rw [indentation, Nat.mul_succ, List.replicate_add]
  rfl

/-- A line that is one level deeper is not mistaken for the end. -/
theorem indentation_succ_append_ne {c : Char} (h : c ≠ ' ') (level : Nat) (r r' : List Char) :
    indentation (level + 1) ++ r ≠ indentation level ++ c :: r' := by
  intro heq
  rw [indentation_succ, List.append_assoc] at heq
  exact h (List.cons.inj (List.append_cancel_left heq)).1.symm

theorem itemLine_append_ne (level : Nat) (v : Hcl) (r r' : List Char) :
    itemLine level v ++ r ≠ indentation level ++ [']'] ++ r' := by
  simp only [itemLine, List.append_assoc]
  exact indentation_succ_append_ne (by decide) level _ _

theorem entryLine_append_ne (level : Nat) (e : String × Hcl) (r r' : List Char) :
    entryLine level e ++ r ≠ indentation level ++ ['\x7d'] ++ r' := by
  simp only [entryLine, List.append_assoc]
  exact indentation_succ_append_ne (by decide) level _ _

/-- A value is not mistaken for what begins none. -/
theorem write_append_ne {c : Char} (hc : kindOf? c = none) (hv : v.sources = []) :
    write level v ++ r ≠ c :: r' := by
  intro h
  obtain ⟨d, rest, hd, hkind⟩ := exists_write_eq_cons level hv
  rw [hd] at h
  rw [(List.cons.inj h).1, hc] at hkind
  exact kind?_ne_none hv hkind.symm

theorem toldApart_furtherItem (h : Told level v) :
    ToldApart (furtherItem level) (fun w => w.sources = []) EndsNumber v := by
  intro w r r' hw hr hr' heq
  exact h w r r' hw hr hr' (List.cons.inj (List.cons.inj heq).2).2

theorem toldApart_itemLine (h : Told (level + 1) v) :
    ToldApart (itemLine level) (fun w => w.sources = []) (fun _ => True) v := by
  intro w r r' hw _ _ heq
  simp only [itemLine, List.append_assoc] at heq
  obtain ⟨rfl, hrest⟩ := h w ([',', '\n'] ++ r) ([',', '\n'] ++ r') hw (endsRun_cons rfl _)
    (endsRun_cons rfl _) (List.append_cancel_left heq)
  exact ⟨rfl, List.append_cancel_left hrest⟩

theorem toldApart_entryLine {e : String × Hcl} (h : Told (level + 1) e.2) :
    ToldApart (entryLine level) (fun e => e.2.sources = []) (fun _ => True) e := by
  obtain ⟨key, v⟩ := e
  rintro ⟨key', w⟩ r r' hw - - heq
  simp only [entryLine, List.append_assoc] at heq
  obtain ⟨rfl, hvalue⟩ := quoteChars_append_inj (List.append_cancel_left heq)
  obtain ⟨rfl, hrest⟩ := h w (['\n'] ++ r) (['\n'] ++ r') hw (endsRun_cons rfl _)
    (endsRun_cons rfl _) (List.append_cancel_left hvalue)
  exact ⟨rfl, List.append_cancel_left hrest⟩

theorem told_inline {items items' : List Hcl} (htold : ∀ v ∈ items, Told level v)
    (hitems : ∀ v ∈ items, v.sources = []) (hitems' : ∀ v ∈ items', v.sources = [])
    (h : writeInline level items ++ ([']'] ++ r) = writeInline level items' ++ ([']'] ++ r')) :
    items = items' ∧ r = r' := by
  cases items with
  | nil =>
    cases items' with
    | nil => exact ⟨rfl, (List.cons.inj h).2⟩
    | cons w items' =>
      rw [writeInline_cons, List.append_assoc] at h
      exact absurd h.symm (write_append_ne rfl (hitems' w List.mem_cons_self))
  | cons v items =>
    cases items' with
    | nil =>
      rw [writeInline_cons, List.append_assoc] at h
      exact absurd h (write_append_ne rfl (hitems v List.mem_cons_self))
    | cons w items' =>
      obtain ⟨hv, hrest⟩ := List.forall_mem_cons.mp htold
      obtain ⟨hw, hrest'⟩ := List.forall_mem_cons.mp hitems'
      -- a comma or the closing bracket follows, and no number goes on with either
      have hfurther (vs : List Hcl) (r : List Char) :
          EndsNumber (vs.flatMap (furtherItem level) ++ ([']'] ++ r)) := by
        cases vs <;> exact endsRun_cons rfl _
      rw [writeInline_cons, List.append_assoc, writeInline_cons, List.append_assoc] at h
      obtain ⟨rfl, hvs⟩ := hv w _ _ hw (hfurther _ _) (hfurther _ _) h
      obtain ⟨rfl, hr⟩ := flatMap_append_inj (fun _ _ => endsRun_cons rfl _)
        (fun _ => endsRun_cons rfl _) (fun _ _ _ heq => absurd (List.cons.inj heq).1 (by decide))
        (fun x hx => toldApart_furtherItem (hrest x hx)) hrest' hvs
      exact ⟨rfl, hr⟩

/-- A list on one line is not mistaken for one on several. -/
theorem inline_append_ne {items : List Hcl} (hitems : ∀ v ∈ items, v.sources = []) :
    writeInline level items ++ [']'] ++ r ≠ '\n' :: r' := by
  cases items with
  | nil => exact fun h => absurd (List.cons.inj h).1 (by decide)
  | cons v items =>
    rw [writeInline_cons, List.append_assoc, List.append_assoc]
    exact write_append_ne rfl (hitems v List.mem_cons_self)

theorem told_list {items : List Hcl} (htold : ∀ v ∈ items, ∀ level, Told level v)
    (hitems : ∀ v ∈ items, v.sources = []) : Told level (.list items) := by
  intro w r r' hw hr hr' h
  have hv : (Hcl.list items).sources = [] := itemSources_eq_nil_iff.mpr hitems
  have hkind := kind?_eq_of_append hv hw h
  cases w with
  | list items' =>
    have hitems' : ∀ w ∈ items', w.sources = [] := itemSources_eq_nil_iff.mp hw
    cases hall : items.all isScalar <;> cases hall' : items'.all isScalar
    case true.true =>
      rw [write_inline hall, write_inline hall'] at h
      have hline : writeInline level items ++ ([']'] ++ r) =
          writeInline level items' ++ ([']'] ++ r') := by simpa using h
      obtain ⟨rfl, hrest⟩ := told_inline (fun v hv => htold v hv level) hitems hitems' hline
      exact ⟨rfl, hrest⟩
    case true.false =>
      rw [write_inline hall, write_lines hall'] at h
      exact absurd (List.cons.inj h).2 (inline_append_ne hitems)
    case false.true =>
      rw [write_lines hall, write_inline hall'] at h
      exact absurd (List.cons.inj h).2.symm (inline_append_ne hitems')
    case false.false =>
      rw [write_lines hall, write_lines hall'] at h
      have hlines : items.flatMap (itemLine level) ++ (indentation level ++ [']'] ++ r) =
          items'.flatMap (itemLine level) ++ (indentation level ++ [']'] ++ r') := by simpa using h
      obtain ⟨rfl, hrest⟩ := flatMap_append_inj (fun _ _ => trivial) (fun _ => trivial)
        (itemLine_append_ne level) (fun v hv => toldApart_itemLine (htold v hv (level + 1)))
        hitems' hlines
      exact ⟨rfl, hrest⟩
  | _ => exact nomatch hkind

theorem told_object {entries : List (String × Hcl)} (htold : ∀ e ∈ entries, ∀ level, Told level e.2)
    (hentries : ∀ e ∈ entries, e.2.sources = []) : Told level (.object entries) := by
  intro w r r' hw hr hr' h
  have hv : (Hcl.object entries).sources = [] := entrySources_eq_nil_iff.mpr hentries
  have hkind := kind?_eq_of_append hv hw h
  cases w with
  | object entries' =>
    have hentries' : ∀ e ∈ entries', e.2.sources = [] := entrySources_eq_nil_iff.mp hw
    -- an empty object closes at once, and any other one begins a line
    cases entries with
    | nil =>
      cases entries' with
      | nil => exact ⟨rfl, List.append_cancel_left h⟩
      | cons e' entries' =>
        rw [write_entries (List.cons_ne_nil _ _)] at h
        exact absurd (List.cons.inj (List.cons.inj h).2).1 (by decide)
    | cons e entries =>
      cases entries' with
      | nil =>
        rw [write_entries (List.cons_ne_nil _ _)] at h
        exact absurd (List.cons.inj (List.cons.inj h).2).1 (by decide)
      | cons e' entries' =>
        rw [write_entries (List.cons_ne_nil _ _), write_entries (List.cons_ne_nil _ _)] at h
        have hlines : (e :: entries).flatMap (entryLine level) ++
              (indentation level ++ ['\x7d'] ++ r) =
            (e' :: entries').flatMap (entryLine level) ++
              (indentation level ++ ['\x7d'] ++ r') := by simpa using h
        obtain ⟨heq, hrest⟩ := flatMap_append_inj (fun _ _ => trivial) (fun _ => trivial)
          (entryLine_append_ne level) (fun e he => toldApart_entryLine (htold e he (level + 1)))
          hentries' hlines
        exact ⟨congrArg Hcl.object heq, hrest⟩
  | _ => exact nomatch hkind

/-- Every value without expressions is told apart by its text. -/
theorem told_of_sources (v : Hcl) : v.sources = [] → ∀ level, Told level v := by
  induction v using induct with
  | scalar v hscalar => exact fun hv _ => told_of_isScalar hscalar hv
  | list items ih =>
    intro hv level
    have hitems : ∀ v ∈ items, v.sources = [] := itemSources_eq_nil_iff.mp hv
    exact told_list (fun v hv => ih v hv (hitems v hv)) hitems
  | object entries ih =>
    intro hv level
    have hentries : ∀ e ∈ entries, e.2.sources = [] := entrySources_eq_nil_iff.mp hv
    exact told_object (fun e he => ih e he (hentries e he)) hentries

/-- Values without expressions are never written alike at one level. -/
theorem textAt_inj (hv : v.sources = []) (hw : w.sources = [])
    (h : textAt level v = textAt level w) : v = w := by
  have htext : write level v ++ [] = write level w ++ [] := by
    rw [List.append_nil, List.append_nil]
    exact String.ofList_injective h
  have hend : EndsNumber [] := by simp [EndsRun]
  exact (told_of_sources v hv level w [] [] hw hend hend htext).1

/-- A text that could pass for two, and a key and a value that could pass for brackets. -/
theorem textAt_inj_mixed :
    let given :=
      ofInput (.list [.text "a\", \"b", .mapping [("\x7d", .int (-1)), ("x", .text "]")]])
    let told := list [.text "a\", \"b", .object [("\x7d", .int (-1)), ("x", .text "]")]]
    given.sources = [] ∧ told.sources = [] ∧ textAt 1 given = textAt 1 told ∧ given = told :=
  ⟨rfl, rfl, rfl, textAt_inj rfl rfl (show textAt 1 _ = textAt 1 _ from rfl)⟩

end Rollout.Hcl
