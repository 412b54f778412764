import Rollout.Proofs.Record.Order
import Rollout.Proofs.Text
import Rollout.Terraform.Block

/-!
# Addresses of resources

The first record of a type is labelled with its identifier alone, each later one with its
number among those of the type. Two numbers never make one label, so a label that occurs twice
is that of the first record of a type: its identifier ends in the number of a later one.
-/

namespace Rollout.Terraform

/-- The type of the resource for a record. -/
def typeOf (r : Record) : String := (resourceType? r.kind).getD manifestType

/-- The name that the resource for a record is labelled with. -/
def nameOf (r : Record) : String := r.name?.getD "unnamed"

/-- An identifier with a number, as a label. -/
def numbered (name : String) (n : Nat) : String := s!"{Name.identifier name}_{n}"

/-- What tells one resource of a module from another. -/
def Block.key (b : Block) : String × String := (b.resourceType, b.label)

section Labels

theorem labelAfter_zero (name : String) : labelAfter 0 name = Name.identifier name := if_pos rfl

theorem labelAfter_succ (n : Nat) (name : String) :
    labelAfter (n + 1) name = numbered name (n + 2) :=
  if_neg (Nat.succ_ne_zero n)

theorem toList_numbered (name : String) (n : Nat) : (numbered name n).toList =
    (Name.identifier name).toList ++ '_' :: Nat.toDigits 10 n := by
  have hdigits : (toString n).toList = Nat.toDigits 10 n := String.toList_ofList
  have htext : numbered name n = Name.identifier name ++ "_" ++ toString n := rfl
  rw [htext, String.toList_append, String.toList_append, hdigits, List.append_assoc]
  rfl

theorem underscore_notMem_toDigits (n : Nat) : '_' ∉ Nat.toDigits 10 n := by
  intro hmem
  have hdigit := Nat.isDigit_of_mem_toDigits (by omega) (by omega) hmem
  exact absurd hdigit (by decide)

/-- The number of a label is what follows its last underscore. -/
theorem numbered_inj {a b : String} {m n : Nat} (h : numbered a m = numbered b n) : m = n := by
  have hreverse := congrArg (List.reverse ∘ String.toList) h
  simp only [Function.comp, toList_numbered, List.reverse_append, List.reverse_cons,
    List.append_assoc, List.singleton_append] at hreverse
  have hnone (k : Nat) : '_' ∉ (Nat.toDigits 10 k).reverse := by
    rw [List.mem_reverse]
    exact underscore_notMem_toDigits k
  have hparts := congrArg (Text.partsOf '_') hreverse
  rw [Text.partsOf_append_cons (hnone m), Text.partsOf_append_cons (hnone n)] at hparts
  have hdigits := List.reverse_inj.mp (List.cons.inj hparts).1
  have hvalue := congrArg (fun digits => Nat.ofDigitChars 10 digits 0) hdigits
  simpa only [Nat.ofDigitChars_ten_toDigits] using hvalue

/-- An earlier and a later record of a type share their label only if the earlier one is the
first of the type. -/
theorem labelAfter_eq_iff {m n : Nat} (h : m < n) {a b : String} :
    labelAfter m a = labelAfter n b ↔ m = 0 ∧ Name.identifier a = numbered b (n + 1) := by
  obtain ⟨n, rfl⟩ := Nat.exists_eq_add_one_of_ne_zero (Nat.ne_zero_of_lt h)
  rw [labelAfter_succ]
  cases m with
  | zero => simp [labelAfter_zero]
  | succ m =>
    rw [labelAfter_succ]
    constructor
    · intro heq
      have hnumber := numbered_inj heq
      omega
    · intro hzero
      omega

end Labels

section Blocks

variable (m : TerraformModule)

/-- How many of some records have a type. -/
def countOf (typeName : String) (rs : List Record) : Nat := (rs.map typeOf).count typeName

theorem key_blockOf (before : List String) (r : Record) :
    (blockOf m before r).key = (typeOf r, labelAfter (before.count (typeOf r)) (nameOf r)) := by
  unfold blockOf typeOf
  cases resourceType? r.kind <;> rfl

theorem resourceType_blockOf (before : List String) (r : Record) :
    (blockOf m before r).resourceType = typeOf r :=
  congrArg Prod.fst (key_blockOf m before r)

theorem blocksFrom_cons (before : List String) (r : Record) (rs : List Record) :
    blocksFrom m before (r :: rs) = blockOf m before r :: blocksFrom m (typeOf r :: before) rs := by
  rw [blocksFrom, resourceType_blockOf]

/-- Each key is that of a record, numbered after those before it. -/
theorem mem_keys_blocksFrom_iff {before : List String} {rs : List Record} {key : String × String} :
    key ∈ (blocksFrom m before rs).map Block.key ↔ ∃ middle s after, rs = middle ++ s :: after ∧
      key = (typeOf s,
        labelAfter (countOf (typeOf s) middle + before.count (typeOf s)) (nameOf s)) := by
  induction rs generalizing before with
  | nil => simp [blocksFrom]
  | cons r rs ih =>
    rw [blocksFrom_cons, List.map_cons, List.mem_cons, ih, key_blockOf]
    constructor
    · rintro (rfl | ⟨middle, s, after, rfl, rfl⟩)
      · exact ⟨[], r, rs, rfl, by simp [countOf]⟩
      · refine ⟨r :: middle, s, after, rfl, ?_⟩
        simp only [countOf, List.map_cons, List.count_cons]
        congr 2
        omega
    · rintro ⟨middle, s, after, hrs, rfl⟩
      cases middle with
      | nil =>
        obtain ⟨rfl, rfl⟩ := List.cons.inj hrs
        exact .inl (by simp [countOf])
      | cons x middle =>
        obtain ⟨rfl, rfl⟩ := List.cons.inj hrs
        refine .inr ⟨middle, s, after, rfl, ?_⟩
        simp only [countOf, List.map_cons, List.count_cons]
        congr 2
        omega

/-- The first record of a type has the label that a later one gets by its number. -/
structure Clash (before : List Record) (r : Record) (middle : List Record) (s : Record) :
    Prop where
  first : typeOf r ∉ before.map typeOf
  sameType : typeOf s = typeOf r
  sameLabel : Name.identifier (nameOf r) = numbered (nameOf s) (countOf (typeOf r) middle + 2)

/-- No record is labelled like the first one of its type. -/
def ClashFree (rs : List Record) : Prop :=
  ∀ before r middle s after, rs = before ++ r :: (middle ++ s :: after) →
    ¬ Clash before r middle s

theorem key_blockOf_mem_iff {before : List String} {r : Record} {rs : List Record} :
    (blockOf m before r).key ∈ (blocksFrom m (typeOf r :: before) rs).map Block.key ↔
      typeOf r ∉ before ∧ ∃ middle s after, rs = middle ++ s :: after ∧ Clash [] r middle s := by
  rw [mem_keys_blocksFrom_iff, key_blockOf]
  constructor
  · rintro ⟨middle, s, after, hrs, hkey⟩
    obtain ⟨htype, hlabel⟩ := Prod.mk.inj hkey
    rw [← htype, List.count_cons_self] at hlabel
    obtain ⟨hnew, hsame⟩ := (labelAfter_eq_iff (by omega)).mp hlabel
    refine ⟨List.count_eq_zero.mp hnew, middle, s, after, hrs, List.not_mem_nil, htype.symm, ?_⟩
    rw [hsame, hnew]
  · rintro ⟨hnew, middle, s, after, hrs, hclash⟩
    have hcount : before.count (typeOf r) = 0 := List.count_eq_zero.mpr hnew
    refine ⟨middle, s, after, hrs, Prod.ext hclash.sameType.symm ?_⟩
    rw [hclash.sameType, List.count_cons_self, hcount]
    exact (labelAfter_eq_iff (by omega)).mpr ⟨rfl, hclash.sameLabel⟩

theorem nodup_keys_blocksFrom_iff (before : List String) (rs : List Record) :
    ((blocksFrom m before rs).map Block.key).Nodup ↔
      ∀ pre r middle s after, rs = pre ++ r :: (middle ++ s :: after) → typeOf r ∉ before →
        ¬ Clash pre r middle s := by
  induction rs generalizing before with
  | nil => simp [blocksFrom]
  | cons r rs ih =>
    rw [blocksFrom_cons, List.map_cons, List.nodup_cons, key_blockOf_mem_iff, ih]
    constructor
    · rintro ⟨hhead, htail⟩ pre x middle s after hrs hnew hclash
      cases pre with
      | nil =>
        obtain ⟨rfl, rfl⟩ := List.cons.inj hrs
        exact hhead ⟨hnew, middle, s, after, rfl, hclash⟩
      | cons y pre =>
        obtain ⟨rfl, rfl⟩ := List.cons.inj hrs
        have hfirst := hclash.first
        rw [List.map_cons, List.mem_cons, not_or] at hfirst
        refine htail pre x middle s after rfl ?_ ⟨hfirst.2, hclash.sameType, hclash.sameLabel⟩
        rw [List.mem_cons, not_or]
        exact ⟨hfirst.1, hnew⟩
    · intro h
      refine ⟨?_, ?_⟩
      · rintro ⟨hnew, middle, s, after, rfl, hclash⟩
        exact h [] r middle s after rfl hnew hclash
      · rintro pre x middle s after rfl hnew hclash
        rw [List.mem_cons, not_or] at hnew
        refine h (r :: pre) x middle s after rfl hnew.2 ⟨?_, hclash.sameType, hclash.sameLabel⟩
        rw [List.map_cons, List.mem_cons, not_or]
        exact ⟨hnew.1, hclash.first⟩

end Blocks

section Outputs

/-- The resources whose names are outputs. -/
def namedBlocks (bs : List Block) : List Block := bs.filter fun b => namedKinds.contains b.kind

/-- The resource has the type of its kind. -/
def Block.IsTyped (b : Block) : Prop := b.resourceType = (resourceType? b.kind).getD manifestType

theorem isTyped_of_mem_blocksFrom {m : TerraformModule} {before : List String}
    {rs : List Record} {b : Block} (hb : b ∈ blocksFrom m before rs) : b.IsTyped := by
  induction rs generalizing before with
  | nil => exact absurd hb List.not_mem_nil
  | cons r rs ih =>
    rw [blocksFrom_cons] at hb
    obtain rfl | hb := List.mem_cons.mp hb
    · have hkind : (blockOf m before r).kind = r.kind := by
        unfold blockOf
        cases resourceType? r.kind <;> rfl
      rw [Block.IsTyped, resourceType_blockOf, hkind, typeOf]
    · exact ih hb

/-- What the name of an output adds to the label of the resource. -/
def outputEnding (kind : String) : List Char := "_".toList ++ (Hcl.snakeCase kind ++ "_name").toList

theorem toList_output_name (b : Block) :
    b.output.name.toList = b.label.toList ++ outputEnding b.kind := by
  simp [Block.output, outputEnding]

/-- The name of an output tells the kind of the resource. -/
theorem eq_of_outputEnding_suffix : ∀ k ∈ namedKinds, ∀ k' ∈ namedKinds,
    (outputEnding k).isSuffixOf (outputEnding k') = true → k = k' := by
  decide +kernel

theorem kind_eq_of_output_name {b c : Block} (hb : b.kind ∈ namedKinds) (hc : c.kind ∈ namedKinds)
    (h : b.output.name = c.output.name) : b.kind = c.kind := by
  have hlist : b.label.toList ++ outputEnding b.kind = c.label.toList ++ outputEnding c.kind := by
    rw [← toList_output_name, ← toList_output_name, h]
  have hbs : outputEnding b.kind <:+ c.label.toList ++ outputEnding c.kind :=
    ⟨b.label.toList, hlist⟩
  have hcs : outputEnding c.kind <:+ c.label.toList ++ outputEnding c.kind :=
    List.suffix_append _ _
  obtain hle | hle := Nat.le_total (outputEnding b.kind).length (outputEnding c.kind).length
  · have hsuffix := List.suffix_of_suffix_length_le hbs hcs hle
    exact eq_of_outputEnding_suffix _ hb _ hc (List.isSuffixOf_iff_suffix.mpr hsuffix)
  · have hsuffix := List.suffix_of_suffix_length_le hcs hbs hle
    exact (eq_of_outputEnding_suffix _ hc _ hb (List.isSuffixOf_iff_suffix.mpr hsuffix)).symm

theorem kind_eq_of_resourceType : ∀ k ∈ namedKinds, ∀ k' ∈ namedKinds,
    resourceType? k = resourceType? k' → k = k' := by
  decide +kernel

theorem isSome_resourceType?_of_mem : ∀ k ∈ namedKinds, (resourceType? k).isSome = true := by
  decide +kernel

/-- Two outputs have one name just when their resources have one address. -/
theorem output_name_eq_iff {b c : Block} (hb : b.kind ∈ namedKinds) (hc : c.kind ∈ namedKinds)
    (hbt : b.IsTyped) (hct : c.IsTyped) : b.output.name = c.output.name ↔ b.key = c.key := by
  constructor
  · intro hname
    have hkind := kind_eq_of_output_name hb hc hname
    have hlist : b.label.toList ++ outputEnding b.kind =
        c.label.toList ++ outputEnding c.kind := by
      rw [← toList_output_name, ← toList_output_name, hname]
    rw [hkind] at hlist
    have hlabel := String.toList_injective (List.append_cancel_right hlist)
    rw [Block.key, Block.key, hbt, hct, hkind, hlabel]
  · intro hkey
    obtain ⟨htype, hlabel⟩ := Prod.mk.inj hkey
    rw [hbt, hct] at htype
    obtain ⟨tb, htb⟩ := Option.isSome_iff_exists.mp (isSome_resourceType?_of_mem _ hb)
    obtain ⟨tc, htc⟩ := Option.isSome_iff_exists.mp (isSome_resourceType?_of_mem _ hc)
    have hkind : b.kind = c.kind := by
      refine kind_eq_of_resourceType _ hb _ hc ?_
      rw [htb, htc] at htype ⊢
      exact congrArg some htype
    simp only [Block.output, hlabel, hkind]

theorem nodup_outputNames_iff {bs : List Block} (h : ∀ b ∈ bs, b.IsTyped) :
    (((namedBlocks bs).map Block.output).map (·.name)).Nodup ↔
      ((namedBlocks bs).map Block.key).Nodup := by
  have hsame : ∀ b ∈ namedBlocks bs, ∀ c ∈ namedBlocks bs,
      (b.output.name = c.output.name ↔ b.key = c.key) := by
    intro b hb c hc
    obtain ⟨hbmem, hbkind⟩ := List.mem_filter.mp hb
    obtain ⟨hcmem, hckind⟩ := List.mem_filter.mp hc
    exact output_name_eq_iff (List.contains_iff_mem.mp hbkind) (List.contains_iff_mem.mp hckind)
      (h b hbmem) (h c hcmem)
  rw [List.map_map, List.Nodup, List.Nodup, List.pairwise_map, List.pairwise_map]
  constructor
  · exact List.Pairwise.imp_of_mem fun {b c} hb hc hne hkey => hne ((hsame b hb c hc).mpr hkey)
  · exact List.Pairwise.imp_of_mem fun {b c} hb hc hne hname => hne ((hsame b hb c hc).mp hname)

end Outputs

/-- The records that become resources, in the order of these. -/
def applied (rs : List Record) : List Record := Record.sortForApply (Record.distinct rs)

/-- The addresses of the resources are pairwise distinct unless the identifier of the first
record of a type is the numbered label of a later one. Where they are, so are the names of the
outputs that a module has beside those it declares. -/
theorem nodup_keys_iff_clashFree (m : TerraformModule) (rs : List Record) :
    (((blocks m rs).map Block.key).Nodup ↔ ClashFree (applied rs)) ∧
      (((blocks m rs).map Block.key).Nodup → ∃ generated,
        outputs m (blocks m rs) = generated ++ m.outputs ∧ (generated.map (·.name)).Nodup) := by
  constructor
  · rw [blocks, nodup_keys_blocksFrom_iff]
    constructor
    · intro h before r middle s after hrs
      exact h before r middle s after hrs List.not_mem_nil
    · intro h pre r middle s after hrs _
      exact h pre r middle s after hrs
  · intro h
    have htyped : ∀ b ∈ blocks m rs, b.IsTyped := fun b hb => isTyped_of_mem_blocksFrom hb
    have hkeys : ((namedBlocks (blocks m rs)).map Block.key).Nodup :=
      h.sublist (List.filter_sublist.map Block.key)
    have hnames := (nodup_outputNames_iff htyped).mpr hkeys
    exact ⟨_, rfl, hnames.sublist (List.filter_sublist.map _)⟩

/-- Two Services in the order in which their labels meet. -/
def twoServices : List Record := [.make "v1" "Service" "web-2", .make "v1" "Service" "web"]

theorem applied_twoServices : applied twoServices = twoServices := by
  have hdistinct : Record.distinct twoServices = twoServices := by decide +kernel
  rw [applied, hdistinct]
  exact Record.sortForApply_of_pairwise (by decide +kernel)

/-- Both Services are labelled `web_2`, and both outputs are named after that label. -/
theorem keys_twoServices :
    ¬ ((blocks {} twoServices).map Block.key).Nodup ∧
      ¬ ((outputs {} (blocks {} twoServices)).map (·.name)).Nodup := by
  have hblocks : blocks {} twoServices = blocksFrom {} [] twoServices :=
    congrArg (blocksFrom {} []) applied_twoServices
  rw [hblocks]
  decide +kernel

end Rollout.Terraform
