import Rollout.Proofs.Hcl.Nesting

/-!
# Blocks of HCL for records

What the block for a record consists of is a tree of attributes and blocks. Its text is well nested,
whatever texts stand in it, and it tells the tree, as long as names of blocks are identifiers: the
start of a line tells an attribute from a block and from the end of the block around it.
-/

namespace Rollout.Hcl

/-! ### Trees of items -/

/-- A value under a key that stays an attribute: no null, no object except for certain maps of
scalars, and no list of objects alone. -/
def StaysAttribute (key : String) : Hcl → Prop
  | .null => False
  | .object entries => key ∈ attributeMaps ∧ ∀ e ∈ entries, e.2.isScalar = true
  | .list items => items = [] ∨ ∃ v ∈ items, v.isObject = false
  | _ => True

mutual

/-- The attributes and blocks that the entries of a record become, in their order. -/
inductive Becomes : List (String × Hcl) → List Item → Prop where
  | nil : Becomes [] []
  | dropped {key : String} {rest : List (String × Hcl)} {items : List Item}
    (h : Becomes rest items) : Becomes ((key, .null) :: rest) items
  | kept {key : String} {v : Hcl} {rest : List (String × Hcl)} {items : List Item}
    (hv : StaysAttribute (snakeCase key) v) (h : Becomes rest items) :
    Becomes ((key, v) :: rest) (.attribute (snakeCase key) v :: items)
  | block {key : String} {entries rest : List (String × Hcl)} {inner items : List Item}
    (hentries : ¬ StaysAttribute (snakeCase key) (.object entries)) (hinner : Becomes entries inner)
    (h : Becomes rest items) :
    Becomes ((key, .object entries) :: rest) (.block (snakeCase key) [] inner :: items)
  | blocks {key : String} {objects : List Hcl} {rest : List (String × Hcl)}
    {blocks items : List Item} (hne : objects ≠ [])
    (hblocks : BecomeBlocks (singular (snakeCase key)) objects blocks) (h : Becomes rest items) :
    Becomes ((key, .list objects) :: rest) (blocks ++ items)

/-- The blocks of one name that objects become, one for each. -/
inductive BecomeBlocks : String → List Hcl → List Item → Prop where
  | nil (name : String) : BecomeBlocks name [] []
  | cons {name : String} {entries : List (String × Hcl)} {objects : List Hcl}
    {inner blocks : List Item} (hinner : Becomes entries inner)
    (h : BecomeBlocks name objects blocks) :
    BecomeBlocks name (.object entries :: objects) (.block name [] inner :: blocks)

end

theorem staysAttribute_object_iff {key : String} {entries : List (String × Hcl)} :
    StaysAttribute key (.object entries) ↔ isAttributeMap key entries = true := by
  simp [StaysAttribute, isAttributeMap]

theorem staysAttribute_list_iff {key : String} {items : List Hcl} :
    StaysAttribute key (.list items) ↔ (!items.isEmpty && items.all isObject) = false := by
  simp only [StaysAttribute, Bool.and_eq_false_iff, Bool.not_eq_false', List.isEmpty_iff,
    List.all_eq_false, Bool.not_eq_true]

mutual

theorem becomes_recordItems : ∀ m : List (String × Hcl), Becomes m (recordItems m)
  | [] => .nil
  | (key, v) :: rest => becomes_entryItems key v (becomes_recordItems rest)

theorem becomes_entryItems (key : String) : ∀ (v : Hcl) {rest : List (String × Hcl)}
    {items : List Item}, Becomes rest items →
    Becomes ((key, v) :: rest) (entryItems (snakeCase key) v ++ items)
  | .null, _, _, h => .dropped h
  | .bool _, _, _, h | .int _, _, _, h | .double _, _, _, h | .text _, _, _, h
  | .expression _, _, _, h => .kept trivial h
  | .object entries, _, _, h => by
    rw [entryItems]
    split
    next hmap => exact .kept (staysAttribute_object_iff.mpr hmap) h
    next hmap =>
      exact .block (mt staysAttribute_object_iff.mp hmap) (becomes_recordItems entries) h
  | .list items, _, _, h => by
    rw [entryItems]
    split
    next hobjects =>
      rw [Bool.and_eq_true, Bool.not_eq_true'] at hobjects
      exact .blocks (by simpa using hobjects.1) (becomeBlocks_itemBlocks _ items hobjects.2) h
    next hobjects =>
      exact .kept (staysAttribute_list_iff.mpr (by simpa using hobjects)) h

theorem becomeBlocks_itemBlocks (name : String) : ∀ vs : List Hcl, vs.all isObject = true →
    BecomeBlocks name vs (itemBlocks name vs)
  | [], _ => .nil name
  | v :: vs, h => by
    rw [List.all_cons, Bool.and_eq_true] at h
    cases v with
    | object entries =>
      exact .cons (becomes_recordItems entries) (becomeBlocks_itemBlocks name vs h.2)
    | _ => exact absurd h.1 Bool.false_ne_true

end

theorem entryItems_of_staysAttribute {key : String} {v : Hcl} (h : StaysAttribute key v) :
    entryItems key v = [.attribute key v] := by
  cases v with
  | null => exact h.elim
  | object entries => rw [entryItems, if_pos (staysAttribute_object_iff.mp h)]
  | list items => rw [entryItems, staysAttribute_list_iff.mp h, if_neg Bool.false_ne_true]
  | _ => rfl

mutual

theorem eq_recordItems : ∀ (m : List (String × Hcl)) {items : List Item}, Becomes m items →
    items = recordItems m
  | [], _, .nil => rfl
  | (key, v) :: rest, _, h => by
    rw [recordItems]
    cases h with
    | dropped h => exact eq_recordItems rest h
    | kept hv h =>
      rw [entryItems_of_staysAttribute hv, eq_recordItems rest h, List.singleton_append]
    | @block _ entries _ inner _ hentries hinner h =>
      rw [entryItems, if_neg (mt staysAttribute_object_iff.mpr hentries),
        eq_recordItems entries hinner, eq_recordItems rest h, List.singleton_append]
    | @blocks _ objects _ blocks _ hne hblocks h =>
      obtain ⟨hobjects, heq⟩ := eq_itemBlocks _ objects hblocks
      have hall : (!objects.isEmpty && objects.all isObject) = true := by
        rw [hobjects, Bool.and_true, Bool.not_eq_true', List.isEmpty_eq_false_iff]
        exact hne
      rw [entryItems, if_pos hall, heq, eq_recordItems rest h]

theorem eq_itemBlocks (name : String) : ∀ (vs : List Hcl) {blocks : List Item},
    BecomeBlocks name vs blocks → vs.all isObject = true ∧ blocks = itemBlocks name vs
  | [], _, .nil _ => ⟨rfl, rfl⟩
  | .object entries :: objects, _, .cons hinner h => by
    obtain ⟨hobjects, heq⟩ := eq_itemBlocks name objects h
    exact ⟨hobjects, by rw [itemBlocks, eq_recordItems entries hinner, heq]⟩

end

/-- The tree is the one that is printed, and there is no other. -/
theorem becomes_iff {m : List (String × Hcl)} {items : List Item} :
    Becomes m items ↔ items = recordItems m :=
  ⟨eq_recordItems m, fun h => h ▸ becomes_recordItems m⟩

/-! ### Names -/

/-- The characters of identifiers. -/
def isIdentifierChar (c : Char) : Bool := c.isAlphanum || c = '_' || c = '-'

/-- What may follow a name: nothing that an identifier could go on with. -/
abbrev EndsName (rest : List Char) : Prop := EndsRun isIdentifierChar rest

theorem isIdentifierChar_of_mem {name : String} (h : isIdentifier name = true) :
    ∀ c ∈ name.toList, isIdentifierChar c = true := by
  unfold isIdentifier at h
  split at h
  next => exact absurd h Bool.false_ne_true
  next c cs heq =>
    rw [heq]
    simp only [Bool.and_eq_true, List.all_eq_true] at h
    refine List.forall_mem_cons.mpr ⟨?_, h.2⟩
    have hstart := h.1
    simp only [isIdentifierChar, Char.isAlphanum, Bool.or_eq_true] at hstart ⊢
    tauto

/-- An identifier is not empty. -/
theorem exists_cons_of_isIdentifier {name : String} (h : isIdentifier name = true) :
    ∃ c rest, name.toList = c :: rest ∧ isIdentifierChar c = true := by
  have hall := isIdentifierChar_of_mem h
  unfold isIdentifier at h
  split at h
  next => exact absurd h Bool.false_ne_true
  next c cs heq =>
    rw [heq] at hall
    exact ⟨c, cs, heq, hall c List.mem_cons_self⟩

namespace Item

section Names

variable {a b name : String} {r r' : List Char}

theorem keyText_of_isIdentifier (h : isIdentifier name = true) : keyText name = name.toList :=
  if_pos h

/-- An identifier is not mistaken for a key in quotes. -/
theorem toList_append_ne_quoteChars (h : isIdentifier a = true) :
    a.toList ++ r ≠ quoteChars b ++ r' := by
  intro heq
  obtain ⟨c, rest, hname, hc⟩ := exists_cons_of_isIdentifier h
  rw [hname] at heq
  obtain ⟨rfl, -⟩ := List.cons.inj heq
  exact absurd hc (by decide)

/-- Keys that are followed by what ends a name are told apart. -/
theorem keyText_append_inj (hr : EndsName r) (hr' : EndsName r')
    (h : keyText a ++ r = keyText b ++ r') : a = b ∧ r = r' := by
  unfold keyText at h
  split at h <;> split at h
  next ha hb =>
    obtain ⟨hab, hrest⟩ :=
      run_append_inj (isIdentifierChar_of_mem ha) (isIdentifierChar_of_mem hb) hr hr' h
    exact ⟨String.toList_inj.mp hab, hrest⟩
  next ha hb => exact absurd h (toList_append_ne_quoteChars ha)
  next ha hb => exact absurd h.symm (toList_append_ne_quoteChars hb)
  next ha hb => exact quoteChars_append_inj h

end Names

/-! ### Items told apart -/

/-- The items that can be read back: no comments and blank lines, values without expressions, and
identifiers as names of blocks. -/
inductive IsReadable : Item → Prop where
  | kept (key : String) {value : Hcl} (hvalue : value.sources = []) :
    IsReadable (.attribute key value)
  | block {name : String} (labels : List String) {items : List Item}
    (hname : isIdentifier name = true) (hitems : ∀ item ∈ items, IsReadable item) :
    IsReadable (.block name labels items)

/-- A label in the first line of a block. -/
def labelText (label : String) : List Char := ' ' :: quoteChars label

/-- What follows the name in the first line of a block, and all that follows that line. -/
def afterName (labels : List String) (rest : List Char) : List Char :=
  labels.flatMap labelText ++ ([' ', '\x7b', '\n'] ++ rest)

theorem writeAll_eq_flatMap (level : Nat) (items : List Item) :
    writeAll level items = items.flatMap (write level) := by
  induction items with
  | nil => rfl
  | cons item items ih => rw [writeAll, ih, List.flatMap_cons]

theorem write_attribute_append (level : Nat) (key : String) (value : Hcl) (r : List Char) :
    write level (.attribute key value) ++ r =
      indentation level ++
        (keyText key ++ ([' ', '=', ' '] ++ (value.write level ++ '\n' :: r))) := by
  simp [write, line]

theorem write_block_append {name : String} (hname : isIdentifier name = true) (level : Nat)
    (labels : List String) (items : List Item) (r : List Char) :
    write level (.block name labels items) ++ r =
      indentation level ++ (keyText name ++ afterName labels
        (items.flatMap (write (level + 1)) ++ (indentation level ++ ['\x7d', '\n'] ++ r))) := by
  have hlabels : labels.flatMap labelText = labels.flatMap fun label => ' ' :: quoteChars label :=
    rfl
  simp [write, line, header, afterName, hlabels, keyText_of_isIdentifier hname,
    writeAll_eq_flatMap]

theorem toldApart_labelText (label : String) :
    ToldApart labelText (fun _ => True) (fun _ => True) label := by
  intro label' r r' _ _ _ h
  exact quoteChars_append_inj (List.cons.inj h).2

/-- Labels are told apart by what follows a name. -/
theorem afterName_inj {labels labels' : List String} {r r' : List Char}
    (h : afterName labels r = afterName labels' r') : labels = labels' ∧ r = r' :=
  flatMap_append_inj (fun _ _ => trivial) (fun _ => trivial)
    (fun _ _ _ heq => absurd (List.cons.inj (List.cons.inj heq).2).1 (by decide))
    (fun label _ => toldApart_labelText label) (fun _ _ => trivial) h

theorem endsName_afterName (labels : List String) (r : List Char) :
    EndsName (afterName labels r) := by
  cases labels <;> exact endsRun_cons rfl _

/-- The first line of a block is not mistaken for an attribute. -/
theorem afterName_ne (labels : List String) (r r' : List Char) :
    afterName labels r ≠ [' ', '=', ' '] ++ r' := by
  intro h
  cases labels <;> exact absurd (List.cons.inj (List.cons.inj h).2).1 (by decide)

/-- An item inside of a block is not mistaken for the end of the block. -/
theorem write_succ_append_ne (level : Nat) (item : Item) (r r' : List Char) :
    write (level + 1) item ++ r ≠ indentation level ++ ['\x7d', '\n'] ++ r' := by
  have hbrace : '\x7d' ≠ ' ' := by decide
  rw [List.append_assoc]
  cases item with
  | blank =>
    intro h
    cases level with
    | zero => exact absurd (List.cons.inj h).1 (by decide)
    | succ level => exact absurd (List.cons.inj h).1 (by decide)
  | comment said =>
    rw [write, line, List.append_assoc, List.append_assoc]
    exact indentation_succ_append_ne hbrace level _ _
  | «attribute» key value =>
    rw [write_attribute_append]
    exact indentation_succ_append_ne hbrace level _ _
  | block name labels items =>
    rw [write, line, List.append_assoc, List.append_assoc, List.append_assoc, List.append_assoc]
    exact indentation_succ_append_ne hbrace level _ _

/-- Every readable item is told apart by its text. -/
theorem IsReadable.toldApart {item : Item} (h : IsReadable item) : ∀ level,
    ToldApart (write level) IsReadable (fun _ => True) item := by
  induction h with
  | @kept key value hvalue =>
    intro level other r r' hother _ _ heq
    rw [write_attribute_append] at heq
    cases hother with
    | @kept key' value' hvalue' =>
      rw [write_attribute_append] at heq
      obtain ⟨rfl, hafter⟩ := keyText_append_inj (endsRun_cons rfl _) (endsRun_cons rfl _)
        (List.append_cancel_left heq)
      have hvalues : value.write level ++ '\n' :: r = value'.write level ++ '\n' :: r' := by
        simpa using hafter
      obtain ⟨rfl, hrest⟩ := told_of_sources value hvalue level value' _ _ hvalue'
        (endsRun_cons rfl _) (endsRun_cons rfl _) hvalues
      exact ⟨rfl, (List.cons.inj hrest).2⟩
    | @block name labels items hname hitems =>
      rw [write_block_append hname] at heq
      -- behind the name an attribute has an equals sign, and a block a label or its brace
      obtain ⟨-, hafter⟩ := keyText_append_inj (endsRun_cons rfl _) (endsName_afterName _ _)
        (List.append_cancel_left heq)
      exact absurd hafter.symm (afterName_ne _ _ _)
  | @block name labels items hname hitems ih =>
    intro level other r r' hother _ _ heq
    rw [write_block_append hname] at heq
    cases hother with
    | @kept key value hvalue =>
      rw [write_attribute_append] at heq
      obtain ⟨-, hafter⟩ := keyText_append_inj (endsName_afterName _ _) (endsRun_cons rfl _)
        (List.append_cancel_left heq)
      exact absurd hafter (afterName_ne _ _ _)
    | @block name' labels' items' hname' hitems' =>
      rw [write_block_append hname'] at heq
      obtain ⟨rfl, hafter⟩ := keyText_append_inj (endsName_afterName _ _) (endsName_afterName _ _)
        (List.append_cancel_left heq)
      obtain ⟨rfl, hinner⟩ := afterName_inj hafter
      obtain ⟨rfl, hrest⟩ := flatMap_append_inj (fun _ _ => trivial) (fun _ => trivial)
        (write_succ_append_ne level) (fun item hitem => ih item hitem (level + 1)) hitems' hinner
      exact ⟨rfl, hrest⟩

/-! ### Items within their brackets -/

section Laid

variable {level : Nat} {due : List Char}

theorem isQuiet_of_isIdentifierChar {c : Char} (h : isIdentifierChar c = true) :
    isQuiet c = true :=
  decide_eq_true (notMem_of_all rfl h)

theorem begins_keyText (key : String) : Begins (keyText key) := by
  unfold keyText
  split
  next hkey =>
    obtain ⟨c, rest, hname, hc⟩ := exists_cons_of_isIdentifier hkey
    exact ⟨c, rest, hname, decide_eq_true (notMem_of_all rfl hc)⟩
  next => exact begins_quoteChars key

theorem laid_keyText (key : String) :
    Laid level (.within due) (keyText key) (.within due) := by
  unfold keyText
  split
  next hkey =>
    exact .quiet (List.all_eq_true.mpr fun c hc =>
      isQuiet_of_isIdentifierChar (isIdentifierChar_of_mem hkey c hc))
  next => exact .quoteChars key

theorem laid_labelText (label : String) :
    Laid level (.within due) (labelText label) (.within due) :=
  .further (by decide) rfl (.quoteChars label)

/-- The first line of a block opens one bracket. -/
theorem laid_header {name : String} (hname : isIdentifier name = true) (labels : List String) :
    Laid level (.within due) (header name labels) (.within ('\x7d' :: due)) := by
  have hkey : Laid level (.within due) (keyText name) (.within due) :=
    laid_keyText name
  rw [keyText_of_isIdentifier hname] at hkey
  have hbrace : Laid level (.within due) [' ', '\x7b'] (.within ('\x7d' :: due)) :=
    .further (by decide) rfl (.opening rfl (.nil _))
  exact (hkey.append (.flatMap fun label _ => laid_labelText label)).append hbrace

/-- The lines of every readable item are indented by its brackets. -/
theorem IsReadable.laid {item : Item} (h : IsReadable item) : ∀ due : List Char,
    Laid level (.lineStart 0 due) (write (level + due.length) item) (.lineStart 0 due) := by
  induction h with
  | @kept key value hvalue =>
    intro due
    have hequals : Laid level (.within due) [' ', '=', ' '] (.within due) := .quiet rfl
    have hline := (((laid_keyText key).append hequals).append (isLaid value hvalue due)).line
      (((begins_keyText key).append _).append _)
    simpa [write, Item.line] using hline
  | @block name labels items hname hitems ih =>
    intro due
    have hbegins : Begins (header name labels) := by
      have hname' := begins_keyText name
      rw [keyText_of_isIdentifier hname] at hname'
      exact (hname'.append _).append _
    have hinner : Laid level (.lineStart 0 ('\x7d' :: due))
        (writeAll (level + due.length + 1) items) (.lineStart 0 ('\x7d' :: due)) := by
      rw [writeAll_eq_flatMap]
      exact .flatMap fun item hitem => ih item hitem ('\x7d' :: due)
    have hlast : Laid level (.lineStart 0 ('\x7d' :: due)) (Item.line (level + due.length) ['\x7d'])
        (.lineStart 0 due) := (Laid.closingLine rfl).append (.newline (.nil _))
    exact (((laid_header hname labels).line hbegins).append hinner).append hlast

end Laid

end Item

/-! ### Blocks for records -/

mutual

/-- The names of the blocks in an item, at any depth. -/
def Item.blockNames : Item → List String
  | .block name _ items => name :: Item.allBlockNames items
  | _ => []

/-- The names of the blocks in several items, at any depth. -/
def Item.allBlockNames : List Item → List String
  | [] => []
  | item :: items => item.blockNames ++ Item.allBlockNames items

end

theorem Item.allBlockNames_append (items more : List Item) :
    Item.allBlockNames (items ++ more) = Item.allBlockNames items ++ Item.allBlockNames more := by
  induction items with
  | nil => rfl
  | cons item items ih =>
    rw [List.cons_append, Item.allBlockNames, Item.allBlockNames, ih, List.append_assoc]

/-- The blocks of several items are named by identifiers. -/
def NamedWell (items : List Item) : Prop :=
  ∀ name ∈ Item.allBlockNames items, isIdentifier name = true

instance (items : List Item) : Decidable (NamedWell items) :=
  inferInstanceAs (Decidable (∀ name ∈ Item.allBlockNames items, isIdentifier name = true))

theorem namedWell_append_iff {items more : List Item} :
    NamedWell (items ++ more) ↔ NamedWell items ∧ NamedWell more := by
  rw [NamedWell, Item.allBlockNames_append, List.forall_mem_append]
  rfl

theorem namedWell_block_iff {name : String} {labels : List String} {inner items : List Item} :
    NamedWell (.block name labels inner :: items) ↔
      (isIdentifier name = true ∧ NamedWell inner) ∧ NamedWell items := by
  rw [NamedWell, Item.allBlockNames, Item.blockNames, List.forall_mem_append, List.forall_mem_cons]
  rfl

mutual

theorem isReadable_recordItems : ∀ m : List (String × Hcl), entrySources m = [] →
    NamedWell (recordItems m) → ∀ item ∈ recordItems m, item.IsReadable
  | [], _, _ => fun _ h => absurd h List.not_mem_nil
  | (key, v) :: rest, hm, hnames => by
    obtain ⟨hv, hrest⟩ := List.append_eq_nil_iff.mp hm
    rw [recordItems, namedWell_append_iff] at hnames
    rw [recordItems, List.forall_mem_append]
    exact ⟨isReadable_entryItems _ v hv hnames.1, isReadable_recordItems rest hrest hnames.2⟩

theorem isReadable_entryItems (key : String) : ∀ v : Hcl, v.sources = [] →
    NamedWell (entryItems key v) → ∀ item ∈ entryItems key v, item.IsReadable
  | .null, _, _ => fun _ h => absurd h List.not_mem_nil
  | .bool _, hv, _ | .int _, hv, _ | .double _, hv, _ | .text _, hv, _ =>
    List.forall_mem_singleton.mpr (.kept key hv)
  | .expression _, hv, _ => nomatch hv
  | .object entries, hv, hnames => by
    rw [entryItems] at hnames ⊢
    split
    next => exact List.forall_mem_singleton.mpr (.kept key hv)
    next hmap =>
      rw [if_neg hmap, namedWell_block_iff] at hnames
      obtain ⟨⟨hname, hinner⟩, -⟩ := hnames
      exact List.forall_mem_singleton.mpr
        (.block [] hname (isReadable_recordItems entries hv hinner))
  | .list items, hv, hnames => by
    rw [entryItems] at hnames ⊢
    split
    next hobjects =>
      rw [if_pos hobjects] at hnames
      exact isReadable_itemBlocks _ items hv hnames
    next => exact List.forall_mem_singleton.mpr (.kept key hv)

theorem isReadable_itemBlocks (name : String) : ∀ vs : List Hcl, itemSources vs = [] →
    NamedWell (itemBlocks name vs) → ∀ item ∈ itemBlocks name vs, item.IsReadable
  | [], _, _ => fun _ h => absurd h List.not_mem_nil
  | v :: vs, hvs, hnames => by
    obtain ⟨hv, hrest⟩ := List.append_eq_nil_iff.mp hvs
    cases v with
    | object entries =>
      rw [itemBlocks, namedWell_block_iff] at hnames
      obtain ⟨⟨hname, hinner⟩, hblocks⟩ := hnames
      exact List.forall_mem_cons.mpr ⟨.block [] hname (isReadable_recordItems entries hv hinner),
        isReadable_itemBlocks name vs hrest hblocks⟩
    | _ => exact isReadable_itemBlocks name vs hrest hnames

end

/-- The text of the block for a record, on lines of some level. -/
def recordBlock (level : Nat) (name : String) (labels : List String)
    (body : List (String × Hcl)) : List Char :=
  Item.write level (.block name labels (recordItems body))

/-- A block for a record that can be read back: the entries are free of expressions, and every name
of a block is an identifier. -/
structure IsPrintable (name : String) (body : List (String × Hcl)) : Prop where
  literal : entrySources body = []
  named : isIdentifier name = true
  namedWell : NamedWell (recordItems body)

theorem IsPrintable.isReadable {name : String} {body : List (String × Hcl)}
    (h : IsPrintable name body) (labels : List String) :
    (Item.block name labels (recordItems body)).IsReadable :=
  .block labels h.named (isReadable_recordItems body h.literal h.namedWell)

/-- The block for a record is well nested, whatever its texts hold, and its text tells the tree of
attributes and blocks that the entries become. -/
theorem recordBlock_tells (level : Nat) {name : String} (labels : List String)
    {body : List (String × Hcl)} (h : IsPrintable name body) :
    WellNested level (recordBlock level name labels body) ∧
      ∃! items, Becomes body items ∧ ∀ name' labels' body' items', IsPrintable name' body' →
        Becomes body' items' →
        recordBlock level name' labels' body' = recordBlock level name labels body →
        name' = name ∧ labels' = labels ∧ items' = items := by
  have hreadable := h.isReadable labels
  refine ⟨(hreadable.laid []).wellNested, recordItems body, ⟨becomes_recordItems body, ?_⟩,
    fun items hitems => becomes_iff.mp hitems.1⟩
  intro name' labels' body' items' h' hitems' htext
  obtain rfl := becomes_iff.mp hitems'
  have htext' : recordBlock level name' labels' body' ++ [] =
      recordBlock level name labels body ++ [] := congrArg (· ++ []) htext
  obtain ⟨heq, -⟩ :=
    (h'.isReadable labels').toldApart level _ [] [] hreadable trivial trivial htext'
  obtain ⟨rfl, rfl, hsame⟩ := Item.block.inj heq
  exact ⟨rfl, rfl, hsame⟩

/-- A record with a map of labels, a list of objects, and texts that look like ends of blocks. -/
def webRecord : List (String × Hcl) :=
  [("metadata", .object [("labels", .object [("app.io/name", .text "\x7d\n")])]),
    ("spec", .object [("clusterIP", .null), ("externalIPs", .list []),
      ("ports", .list [.object [("name", .text "\"]")], .object [("targetPort", .int 80)]])])]

theorem recordBlock_tells_web : IsPrintable "resource" webRecord ∧
    WellNested 0 (recordBlock 0 "resource" ["kubernetes_service_v1", "web"] webRecord) ∧
    ∃! items, Becomes webRecord items ∧ ∀ name' labels' body' items', IsPrintable name' body' →
      Becomes body' items' →
      recordBlock 0 name' labels' body' =
        recordBlock 0 "resource" ["kubernetes_service_v1", "web"] webRecord →
      name' = "resource" ∧ labels' = ["kubernetes_service_v1", "web"] ∧ items' = items := by
  have hprintable : IsPrintable "resource" webRecord := ⟨rfl, by decide, by decide⟩
  exact ⟨hprintable, recordBlock_tells 0 _ hprintable⟩

end Rollout.Hcl
