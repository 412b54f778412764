import Rollout.Proofs.Hcl.Block

/-!
# Balanced texts of HCL

A text with expressions in it is read from the left with all in mind that is open: braces, and
quotes, in which a dollar or percent sign before a brace opens a template, unless that sign stands
there twice. In a template quotes may open again, so either may stand within the other at any depth.
A text is balanced if it closes all that it opens, and nothing else.

What is written for a value or for items is balanced if all that goes into it as it is is balanced:
expressions, names of blocks and comments. All else is quoted or closes what it opens.
-/

namespace Rollout.Hcl

/-! ### What is open -/

/-- What the last characters in quotes mean for the next one. -/
inductive Behind where
  | nothing
  | backslash
  /-- A sign that opens a template with a brace. -/
  | sigil (c : Char)
  /-- Such a sign behind the same one. They stand for the sign if a brace follows. -/
  | doubled (c : Char)
deriving DecidableEq

namespace Behind

/-- Whether a brace opens a template. -/
def opens : Behind → Bool
  | sigil _ => true
  | _ => false

/-- What a further sign means for the character behind it. -/
def next (b : Behind) (c : Char) : Behind :=
  match b with
  | sigil d | doubled d => if c = d then doubled c else sigil c
  | _ => sigil c

theorem next_ne_backslash (b : Behind) (c : Char) : b.next c ≠ backslash := by
  unfold next
  split
  case h_1 | h_2 => split <;> exact nofun
  case h_3 => exact nofun

theorem next_next (b : Behind) (c : Char) : (b.next c).next c = doubled c := by
  unfold next
  cases b with
  | sigil d | doubled d => by_cases h : c = d <;> simp [h]
  | _ => simp

end Behind

/-- What may be open at a place of a text. -/
inductive Enclosure where
  | braces
  | quotes (behind : Behind)
deriving DecidableEq

namespace Enclosure

/-- What is open behind a character in quotes, of all that is open outside of these. -/
def stepQuoted (behind : Behind) (outer : List Enclosure) (c : Char) : List Enclosure :=
  match behind with
  | .backslash => quotes .nothing :: outer
  | _ =>
    if c = '"' then outer
    else if c = '\\' then quotes .backslash :: outer
    else if isSigil c then quotes (behind.next c) :: outer
    else if c = '\x7b' && behind.opens then braces :: quotes .nothing :: outer
    else quotes .nothing :: outer

/-- What is open behind a character that is not in quotes, unless it closes what is not open. -/
def stepPlain (within : List Enclosure) (c : Char) : Option (List Enclosure) :=
  if c = '"' then some (quotes .nothing :: within)
  else if c = '\x7b' then some (braces :: within)
  else if c = '\x7d' then within.tail?
  else some within

/-- What is open behind a character, the innermost first. -/
def step : List Enclosure → Char → Option (List Enclosure)
  | quotes behind :: outer, c => some (stepQuoted behind outer c)
  | within, c => stepPlain within c

/-- What is open behind a text. -/
def after (within : List Enclosure) (text : List Char) : Option (List Enclosure) :=
  text.foldlM step within

/-- Outside of quotes. -/
def InPlain : List Enclosure → Prop
  | quotes _ :: _ => False
  | _ => True

variable {within inner more : List Enclosure} {text rest : List Char} {c : Char}

theorem step_of_inPlain (h : InPlain within) (c : Char) : step within c = stepPlain within c := by
  unfold step
  split
  · exact h.elim
  · rfl

theorem step_nil (c : Char) : step [] c = stepPlain [] c := rfl

theorem after_cons (within : List Enclosure) (c : Char) (text : List Char) :
    after within (c :: text) = (step within c).bind fun inner => after inner text := by
  rw [after, List.foldlM_cons]
  rfl

theorem after_append (within : List Enclosure) (text rest : List Char) :
    after within (text ++ rest) = (after within text).bind fun inner => after inner rest := by
  rw [after, List.foldlM_append]
  rfl

theorem stepQuoted_append (behind : Behind) (outer more : List Enclosure) (c : Char) :
    stepQuoted behind (outer ++ more) c = stepQuoted behind outer c ++ more := by
  unfold stepQuoted
  split
  · rfl
  · split_ifs <;> rfl

theorem stepPlain_append (h : stepPlain within c = some inner) (more : List Enclosure) :
    stepPlain (within ++ more) c = some (inner ++ more) := by
  unfold stepPlain at h ⊢
  split_ifs at h ⊢
  · obtain rfl := Option.some.inj h
    rfl
  · obtain rfl := Option.some.inj h
    rfl
  · cases within with
    | nil => exact absurd h nofun
    | cons e outer =>
      obtain rfl := Option.some.inj h
      rfl
  · obtain rfl := Option.some.inj h
    rfl

/-- What a character does does not depend on what is open further outside. -/
theorem step_append (hmore : InPlain more) (h : step within c = some inner) :
    step (within ++ more) c = some (inner ++ more) := by
  match within, h with
  | [], h =>
    have hplain := stepPlain_append h more
    rwa [List.nil_append, ← step_of_inPlain hmore] at hplain
  | braces :: _, h => exact stepPlain_append h more
  | quotes behind :: outer, h =>
    obtain rfl := Option.some.inj h
    exact congrArg some (stepQuoted_append behind outer more c)

/-- Nor does what a text does. -/
theorem after_append_within (hmore : InPlain more) (h : after within text = some inner) :
    after (within ++ more) text = some (inner ++ more) := by
  induction text generalizing within with
  | nil =>
    obtain rfl := Option.some.inj h
    rfl
  | cons c text ih =>
    rw [after_cons] at h ⊢
    obtain ⟨next, hstep, hrest⟩ := Option.bind_eq_some_iff.mp h
    rw [step_append hmore hstep]
    exact ih hrest

end Enclosure

/-! ### Balanced texts -/

/-- All that a text opens it closes, and nothing else. -/
def Balanced (text : List Char) : Prop := Enclosure.after [] text = some []

instance : DecidablePred Balanced := fun text =>
  inferInstanceAs (Decidable (Enclosure.after [] text = some []))

/-- Whether a character opens and closes nothing outside of quotes. -/
def isNeutral (c : Char) : Bool := c ∉ ['"', '\x7b', '\x7d']

section Balanced

variable {within outer : List Enclosure} {text rest : List Char}

open Enclosure

theorem Balanced.after_eq (h : Balanced text) (hwithin : InPlain within) :
    after within text = some within :=
  after_append_within hwithin h

theorem balanced_nil : Balanced [] := rfl

theorem Balanced.append (h : Balanced text) (hrest : Balanced rest) : Balanced (text ++ rest) := by
  rw [Balanced, after_append, h, Option.bind_some]
  exact hrest

theorem Balanced.flatMap {α : Type} {piece : α → List Char} {xs : List α}
    (h : ∀ x ∈ xs, Balanced (piece x)) : Balanced (xs.flatMap piece) := by
  induction xs with
  | nil => exact balanced_nil
  | cons x xs ih =>
    obtain ⟨hx, hxs⟩ := List.forall_mem_cons.mp h
    exact hx.append (ih hxs)

/-- What stands between braces stands within them. -/
theorem Balanced.braces (h : Balanced text) : Balanced ('\x7b' :: (text ++ ['\x7d'])) := by
  have hopening : step [] '\x7b' = some [.braces] := rfl
  have hinner : after [.braces] text = some [.braces] := h.after_eq trivial
  rw [Balanced, after_cons, hopening, Option.bind_some, after_append, hinner]
  rfl

theorem balanced_of_isNeutral (h : text.all isNeutral = true) : Balanced text := by
  induction text with
  | nil => exact balanced_nil
  | cons c text ih =>
    rw [List.all_cons, Bool.and_eq_true] at h
    have hc : c ≠ '"' ∧ c ≠ '\x7b' ∧ c ≠ '\x7d' := by simpa [isNeutral] using h.1
    have hstep : step [] c = some [] := by
      rw [step_nil, stepPlain, if_neg hc.1, if_neg hc.2.1, if_neg hc.2.2]
    rw [Balanced, after_cons, hstep]
    exact ih h.2

/-! ### Quotes -/

variable {b : Behind} {c : Char} {s : List Char}

theorem step_quoted (hb : b ≠ .backslash) (outer : List Enclosure) (c : Char) :
    step (.quotes b :: outer) c = some
      (if c = '"' then outer
      else if c = '\\' then .quotes .backslash :: outer
      else if isSigil c then .quotes (b.next c) :: outer
      else if c = '\x7b' && b.opens then .braces :: .quotes .nothing :: outer
      else .quotes .nothing :: outer) := by
  cases b with
  | backslash => exact absurd rfl hb
  | _ => rfl

theorem step_sigil (hb : b ≠ .backslash) (hc : isSigil c = true) :
    step (.quotes b :: outer) c = some (.quotes (b.next c) :: outer) := by
  obtain ⟨hquote, hback, -⟩ := isSpecial_eq_false_iff.mp (isSpecial_of_isSigil hc)
  rw [step_quoted hb, if_neg hquote, if_neg hback, if_pos hc]

/-- What is written for a text leaves the quotes open that it stands in, unless a sign that it
follows opens a template with its first character. -/
theorem exists_after_quotedChars (hb : b ≠ .backslash)
    (hopens : b.opens = true → s.head? ≠ some '\x7b') : ∃ last, last ≠ .backslash ∧
      after (.quotes b :: outer) (quotedChars s) = some (.quotes last :: outer) := by
  induction s generalizing b with
  | nil => exact ⟨b, hb, rfl⟩
  | cons c s ih =>
    cases quotedHead c s with
    | escaped e he hwritten =>
      obtain ⟨last, hlast, hrest⟩ := ih (b := .nothing) nofun nofun
      refine ⟨last, hlast, ?_⟩
      have hback : step (.quotes b :: outer) '\\' = some (.quotes .backslash :: outer) :=
        step_quoted hb outer '\\'
      have hescaped : step (.quotes .backslash :: outer) e = some (.quotes .nothing :: outer) := rfl
      rw [hwritten, after_cons, hback, Option.bind_some, after_cons, hescaped]
      exact hrest
    | doubled t hc hs hwritten =>
      -- the second sign keeps the brace from opening a template
      obtain ⟨last, hlast, hrest⟩ := ih (b := .doubled c) nofun nofun
      refine ⟨last, hlast, ?_⟩
      have ht : quotedChars s = '\x7b' :: quotedChars t := by
        rw [hs]
        rfl
      rw [hwritten, after_cons, step_sigil hb hc, Option.bind_some, after_cons,
        step_sigil (b.next_ne_backslash c) hc, Behind.next_next, ← ht]
      exact hrest
    | plain hc hs hwritten =>
      rw [hwritten, after_cons]
      cases hsigil : isSigil c with
      | true =>
        rw [step_sigil hb hsigil]
        exact ih (b.next_ne_backslash c) fun _ => hs hsigil
      | false =>
        obtain ⟨hquote, hback, -⟩ := isSpecial_eq_false_iff.mp hc
        have hbrace : ¬ (decide (c = '\x7b') && b.opens) = true := by
          intro h
          rw [Bool.and_eq_true, decide_eq_true_iff] at h
          exact hopens h.2 (congrArg some h.1)
        rw [step_quoted hb, if_neg hquote, if_neg hback, hsigil, if_neg Bool.false_ne_true,
          if_neg hbrace]
        exact ih nofun nofun

theorem balanced_quoteChars (s : String) : Balanced (quoteChars s) := by
  have hwritten : ∃ last, last ≠ .backslash ∧
      after [.quotes .nothing] (quotedChars s.toList) = some [.quotes last] :=
    exists_after_quotedChars nofun nofun
  obtain ⟨last, hlast, hinner⟩ := hwritten
  have hopening : step [] '"' = some [.quotes .nothing] := rfl
  rw [Balanced, quoteChars, List.cons_append, after_cons, hopening, Option.bind_some, after_append,
    hinner, Option.bind_some, after_cons, step_quoted hlast]
  rfl

end Balanced

/-! ### Values -/

theorem balanced_of_isScalar {v : Hcl} (hscalar : v.isScalar = true)
    (hv : ∀ source ∈ v.sources, Balanced source.toList) (level : Nat) :
    Balanced (v.write level) := by
  cases v with
  | null => exact balanced_of_isNeutral rfl
  | bool b =>
    cases b with
    | true => exact balanced_of_isNeutral rfl
    | false => exact balanced_of_isNeutral rfl
  | int _ | double _ =>
    exact balanced_of_isNeutral (List.all_eq_true.mpr fun c hc =>
      decide_eq_true (notMem_of_all rfl (isNumberChar_of_mem_write rfl level c hc)))
  | text s => exact balanced_quoteChars s
  | expression source => exact hv source (List.mem_singleton_self source)
  | list items => exact nomatch hscalar
  | object entries => exact nomatch hscalar

theorem balanced_indentation (level : Nat) : Balanced (indentation level) :=
  balanced_of_isNeutral (List.all_eq_true.mpr fun _ hc => by rw [List.eq_of_mem_replicate hc]; rfl)

theorem mem_itemSources_iff {items : List Hcl} {source : String} :
    source ∈ itemSources items ↔ ∃ v ∈ items, source ∈ v.sources := by
  induction items with
  | nil => simp [itemSources]
  | cons v items ih => rw [itemSources, List.mem_append, ih, List.exists_mem_cons_iff]

theorem mem_entrySources_iff {entries : Assoc Hcl} {source : String} :
    source ∈ entrySources entries ↔ ∃ e ∈ entries, source ∈ e.2.sources := by
  induction entries with
  | nil => simp [entrySources]
  | cons e entries ih => rw [entrySources_cons, List.mem_append, ih, List.exists_mem_cons_iff]

theorem entrySources_entries_subset (v : Hcl) : entrySources v.entries ⊆ v.sources := by
  cases v with
  | object entries => exact List.Subset.refl _
  | _ => exact List.nil_subset _

theorem balanced_inline {items : List Hcl} {level : Nat}
    (h : ∀ v ∈ items, Balanced (v.write level)) : Balanced (writeInline level items) := by
  cases items with
  | nil => exact balanced_nil
  | cons v items =>
    obtain ⟨hv, hitems⟩ := List.forall_mem_cons.mp h
    have hcomma : Balanced [',', ' '] := balanced_of_isNeutral rfl
    rw [writeInline_cons]
    exact hv.append (.flatMap fun w hw => hcomma.append (hitems w hw))

/-- A value is written as a balanced text if the expressions in it are balanced. -/
theorem balanced_write (v : Hcl) : (∀ source ∈ v.sources, Balanced source.toList) →
    ∀ level, Balanced (v.write level) := by
  induction v using induct with
  | scalar v hscalar => exact balanced_of_isScalar hscalar
  | list items ih =>
    intro hv level
    have hitem (v : Hcl) (hmem : v ∈ items) (level : Nat) : Balanced (v.write level) :=
      ih v hmem (fun source hs => hv source (mem_itemSources_iff.mpr ⟨v, hmem, hs⟩)) level
    have hopening : Balanced ['['] := balanced_of_isNeutral rfl
    have hclosing : Balanced [']'] := balanced_of_isNeutral rfl
    cases hall : items.all isScalar with
    | true =>
      rw [write_inline hall]
      exact hopening.append ((balanced_inline fun v hv => hitem v hv level).append hclosing)
    | false =>
      have hbreak : Balanced ['\n'] := balanced_of_isNeutral rfl
      have hcomma : Balanced [',', '\n'] := balanced_of_isNeutral rfl
      rw [write_lines hall]
      refine hopening.append (hbreak.append (.append (.flatMap fun v hv => ?_)
        ((balanced_indentation level).append hclosing)))
      exact ((balanced_indentation _).append (hitem v hv _)).append hcomma
  | object entries ih =>
    intro hv level
    have hentry (e : String × Hcl) (hmem : e ∈ entries) (level : Nat) :
        Balanced (e.2.write level) :=
      ih e hmem (fun source hs => hv source (mem_entrySources_iff.mpr ⟨e, hmem, hs⟩)) level
    cases entries with
    | nil => exact balanced_nil.braces
    | cons e entries =>
      have hequals : Balanced [' ', '=', ' '] := balanced_of_isNeutral rfl
      have hbreak : Balanced ['\n'] := balanced_of_isNeutral rfl
      have hlines : Balanced ((e :: entries).flatMap (entryLine level)) := .flatMap fun e he =>
        ((((balanced_indentation _).append (balanced_quoteChars e.1)).append hequals).append
          (hentry e he _)).append hbreak
      rw [write_entries (List.cons_ne_nil _ _), ← List.append_assoc]
      exact (hbreak.append (hlines.append (balanced_indentation level))).braces

/-! ### Items -/

theorem Balanced.line {text : List Char} (h : Balanced text) (level : Nat) :
    Balanced (Item.line level text) :=
  ((balanced_indentation level).append h).append (balanced_of_isNeutral rfl)

namespace Item

mutual

/-- The texts that are written as they are for an item: expressions, names of blocks and
comments. -/
def verbatim : Item → List String
  | .comment said => [said]
  | .blank => []
  | .attribute _ value => value.sources
  | .block name _ items => name :: allVerbatim items

/-- The texts that are written as they are for several items. -/
def allVerbatim : List Item → List String
  | [] => []
  | item :: items => item.verbatim ++ allVerbatim items

end

theorem balanced_of_isIdentifier {name : String} (h : isIdentifier name = true) :
    Balanced name.toList :=
  balanced_of_isNeutral (List.all_eq_true.mpr fun c hc =>
    decide_eq_true (notMem_of_all rfl (isIdentifierChar_of_mem h c hc)))

theorem balanced_keyText (key : String) : Balanced (keyText key) := by
  unfold keyText
  split
  next hkey => exact balanced_of_isIdentifier hkey
  next => exact balanced_quoteChars key

mutual

/-- An item is written as a balanced text if all that goes into it as it is is balanced. -/
theorem balanced_write : ∀ item : Item, (∀ s ∈ item.verbatim, Balanced s.toList) →
    ∀ level, Balanced (item.write level)
  | .comment said, h, level =>
    have hmark : Balanced ['#', ' '] := balanced_of_isNeutral rfl
    (hmark.append (h said (List.mem_singleton_self said))).line level
  | .blank, _, _ => balanced_of_isNeutral rfl
  | .attribute key value, h, level => by
    have hequals : Balanced [' ', '=', ' '] := balanced_of_isNeutral rfl
    have hvalue := Hcl.balanced_write value h level
    have hline := ((balanced_keyText key).append (hequals.append hvalue)).line level
    simpa [write] using hline
  | .block name labels items, h, level => by
    obtain ⟨hname, hitems⟩ := List.forall_mem_cons.mp h
    have hspace : Balanced [' '] := balanced_of_isNeutral rfl
    have hlabels : Balanced (labels.flatMap fun label => ' ' :: quoteChars label) :=
      .flatMap fun label _ => hspace.append (balanced_quoteChars label)
    have hbreak : Balanced ['\n'] := balanced_of_isNeutral rfl
    have hinner := balanced_writeAll items hitems (level + 1)
    have hbraces := (hbreak.append (hinner.append (balanced_indentation level))).braces
    have hblock := (balanced_indentation level).append
      (hname.append (hlabels.append (hspace.append (hbraces.append hbreak))))
    simpa [write, header, line] using hblock

theorem balanced_writeAll : ∀ items : List Item, (∀ s ∈ allVerbatim items, Balanced s.toList) →
    ∀ level, Balanced (writeAll level items)
  | [], _, _ => balanced_nil
  | item :: items, h, level => by
    obtain ⟨hitem, hitems⟩ := List.forall_mem_append.mp h
    exact (balanced_write item hitem level).append (balanced_writeAll items hitems level)

end

theorem allVerbatim_eq_flatMap (items : List Item) :
    allVerbatim items = items.flatMap verbatim := by
  induction items with
  | nil => rfl
  | cons item items ih => rw [allVerbatim, ih, List.flatMap_cons]

theorem allVerbatim_append (items more : List Item) :
    allVerbatim (items ++ more) = allVerbatim items ++ allVerbatim more := by
  simp only [allVerbatim_eq_flatMap, List.flatMap_append]

theorem allVerbatim_spaced (items : List Item) :
    allVerbatim (spaced items) = allVerbatim items := by
  fun_induction spaced items with
  | case1 => rfl
  | case2 item => rfl
  | case3 item items _ ih =>
    rw [allVerbatim, allVerbatim, ih, verbatim, List.nil_append, allVerbatim]

end Item

section Records

variable {s : String}

mutual

/-- In the block for a record, expressions and names of blocks are all that is written as it is. -/
theorem mem_allVerbatim_recordItems : ∀ m : List (String × Hcl),
    s ∈ Item.allVerbatim (recordItems m) →
      s ∈ entrySources m ∨ s ∈ Item.allBlockNames (recordItems m)
  | [], h => absurd h List.not_mem_nil
  | (key, v) :: rest, h => by
    rw [recordItems, Item.allVerbatim_append, List.mem_append] at h
    rw [recordItems, Item.allBlockNames_append, entrySources, List.mem_append, List.mem_append,
      or_or_or_comm]
    exact h.imp (mem_allVerbatim_entryItems _ v) (mem_allVerbatim_recordItems rest)

theorem mem_allVerbatim_entryItems (key : String) : ∀ v : Hcl,
    s ∈ Item.allVerbatim (entryItems key v) →
      s ∈ v.sources ∨ s ∈ Item.allBlockNames (entryItems key v)
  | .null, h => absurd h List.not_mem_nil
  | .bool _, h | .int _, h | .double _, h | .text _, h => absurd h List.not_mem_nil
  | .expression _, h => .inl h
  | .object entries, h => by
    rw [entryItems] at h ⊢
    split at h
    next hmap => exact .inl (by simpa [Item.allVerbatim, Item.verbatim] using h)
    next hmap =>
      rw [if_neg hmap]
      simp only [Item.allVerbatim, Item.verbatim, Item.allBlockNames, Item.blockNames,
        List.append_nil, List.mem_cons, or_left_comm (b := s = key)] at h ⊢
      exact h.imp_right (mem_allVerbatim_recordItems entries)
  | .list items, h => by
    rw [entryItems] at h ⊢
    split at h
    next hobjects =>
      rw [if_pos hobjects]
      exact mem_allVerbatim_itemBlocks _ items h
    next => exact .inl (by simpa [Item.allVerbatim, Item.verbatim] using h)

theorem mem_allVerbatim_itemBlocks (name : String) : ∀ vs : List Hcl,
    s ∈ Item.allVerbatim (itemBlocks name vs) →
      s ∈ itemSources vs ∨ s ∈ Item.allBlockNames (itemBlocks name vs)
  | [], h => absurd h List.not_mem_nil
  | v :: vs, h => by
    rw [itemSources, List.mem_append]
    cases v with
    | object entries =>
      have hentries := mem_allVerbatim_recordItems entries
      have hblocks := mem_allVerbatim_itemBlocks name vs
      simp only [itemBlocks, Item.allVerbatim, Item.verbatim, Item.allBlockNames, Item.blockNames,
        List.mem_append, List.mem_cons, sources] at h hblocks ⊢
      tauto
    | _ => exact (mem_allVerbatim_itemBlocks name vs h).imp_left .inr

end

end Records

end Rollout.Hcl
