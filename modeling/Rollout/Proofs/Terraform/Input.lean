import Rollout.Proofs.Hcl.Placeholder
import Rollout.Terraform.Files

/-!
# Expressions in the settings of a module

The texts of locals, of the inputs of other modules and of data that is looked up may be
expressions. A text that begins and ends like a placeholder becomes one, which is right just if the
brace that closes the first one is the last character. If this holds of all these texts, the files
with them close all braces and quotes that they open.
-/

namespace Rollout

/-- The values whose texts may be expressions. -/
def TerraformModule.inputValues (m : TerraformModule) : List Value :=
  m.locals.map (·.2) ++ m.data.map (·.body) ++ m.modules.flatMap fun c => c.inputs.map (·.2)

namespace Terraform

open Hcl

/-! ### What goes into the files as it is -/

theorem allVerbatim_attributes (f : Value → Hcl) (entries : Assoc Value) :
    Item.allVerbatim (attributes f entries) = entries.flatMap fun e => (f e.2).sources := by
  rw [Item.allVerbatim_eq_flatMap, attributes, List.flatMap_map]
  rfl

theorem verbatim_moduleItem (c : ModuleCall) :
    (moduleItem c).verbatim = "module" :: c.inputs.flatMap fun e => (ofInput e.2).sources := by
  have hversion : Item.allVerbatim (optionItem "version" c.version .text) = [] := by
    cases c.version <;> rfl
  have hblank : Item.allVerbatim (if c.inputs.isEmpty then [] else [.blank]) = [] := by
    split <;> rfl
  rw [moduleItem, Item.verbatim]
  simp only [Item.allVerbatim_append, allVerbatim_attributes, hversion, hblank]
  rfl

/-- A file is balanced if all that goes into it as it is is balanced. -/
theorem balanced_hclFile {items : List Hcl.Item}
    (h : ∀ s ∈ Item.allVerbatim items, Balanced s.toList) (path : String) :
    ∃ text, hclFile path items = .ofText path text ∧ Balanced text.toList := by
  refine ⟨_, rfl, ?_⟩
  rw [Item.text, String.toList_ofList]
  refine Item.balanced_writeAll _ (fun s hs => ?_) 0
  obtain rfl | hs := List.mem_cons.mp hs
  · decide +kernel
  · exact h s hs

theorem eq_of_mem_fileOf {α : Type} {path : String} {xs : List α} {items : List Hcl.Item}
    {f : OutputFile} (h : f ∈ fileOf path xs items) : f = hclFile path items := by
  unfold fileOf at h
  split at h
  · exact absurd h List.not_mem_nil
  · exact List.mem_singleton.mp h

/-! ### The files with values that may be expressions -/

section Files

variable {m : TerraformModule}
  (hm : ∀ v ∈ m.inputValues, ∀ s ∈ inputTexts v, ClosesLast s)
include hm

theorem balanced_of_mem_sources {v : Value} (hv : v ∈ m.inputValues) :
    ∀ source ∈ (ofInput v).sources, Balanced source.toList :=
  balanced_of_mem_sources_ofInput (hm v hv)

/-- What goes as it is into a block whose attributes may be expressions. -/
theorem balanced_of_mem_block {keyword : String} {entries : Assoc Value}
    (hkeyword : Balanced keyword.toList) (hentries : ∀ e ∈ entries, e.2 ∈ m.inputValues) :
    ∀ s ∈ keyword :: entries.flatMap fun e => (ofInput e.2).sources, Balanced s.toList := by
  refine List.forall_mem_cons.mpr ⟨hkeyword, fun s hs => ?_⟩
  obtain ⟨e, he, hs⟩ := List.mem_flatMap.mp hs
  exact balanced_of_mem_sources hm (hentries e he) s hs

theorem balanced_of_mem_locals : ∀ s ∈ Item.allVerbatim
    [.block "locals" [] (attributes .ofInput m.locals)], Balanced s.toList := by
  rw [Item.allVerbatim_eq_flatMap, List.flatMap_singleton, Item.verbatim, allVerbatim_attributes]
  exact balanced_of_mem_block hm (by decide) fun e he =>
    List.mem_append_left _ (List.mem_append_left _ (List.mem_map_of_mem he))

theorem balanced_of_mem_modules : ∀ s ∈ Item.allVerbatim (Item.spaced (m.modules.map moduleItem)),
    Balanced s.toList := by
  intro s hs
  rw [Item.allVerbatim_spaced, Item.allVerbatim_eq_flatMap, List.flatMap_map] at hs
  obtain ⟨c, hc, hs⟩ := List.mem_flatMap.mp hs
  rw [verbatim_moduleItem] at hs
  refine balanced_of_mem_block hm (by decide) (fun e he => ?_) s hs
  exact List.mem_append_right _ (List.mem_flatMap_of_mem hc (List.mem_map_of_mem he))

theorem balanced_of_mem_data
    (hnames : ∀ d ∈ m.data, NamedWell (recordItems (ofInput d.body).entries)) :
    ∀ s ∈ Item.allVerbatim (Item.spaced (m.data.map dataItem)), Balanced s.toList := by
  intro s hs
  rw [Item.allVerbatim_spaced, Item.allVerbatim_eq_flatMap, List.flatMap_map] at hs
  obtain ⟨d, hd, hs⟩ := List.mem_flatMap.mp hs
  rw [dataItem, Item.verbatim] at hs
  obtain rfl | hs := List.mem_cons.mp hs
  · decide
  · obtain hs | hs := mem_allVerbatim_recordItems _ hs
    · have hv : d.body ∈ m.inputValues :=
        List.mem_append_left _ (List.mem_append_right _ (List.mem_map_of_mem hd))
      exact balanced_of_mem_sources hm hv s (entrySources_entries_subset _ hs)
    · exact Item.balanced_of_isIdentifier (hnames d hd s hs)

theorem balanced_of_mem_files (name directory : String) (rs : List Record)
    (hnames : ∀ d ∈ m.data, NamedWell (recordItems (ofInput d.body).entries)) :
    ∀ f ∈ files m name directory rs, f.path ∈ ["locals.tf", "data.tf", "modules.tf"] →
      ∃ text, f = .ofText f.path text ∧ Balanced text.toList := by
  intro f hf hpath
  have hbackend {xs : List Backend} {items : List Hcl.Item}
      (hf : f ∈ fileOf "backend.tf" xs items) :
      f.path ∉ ["locals.tf", "data.tf", "modules.tf"] := by
    rw [eq_of_mem_fileOf hf]
    simp [hclFile, OutputFile.ofText]
  simp only [files, List.mem_append, List.mem_cons, List.not_mem_nil, or_false] at hf
  obtain (((((rfl | rfl | rfl | rfl | rfl) | hf) | hf) | hf) | hf) | (rfl | rfl) := hf
  iterate 5 exact absurd hpath (by simp [hclFile, OutputFile.ofText])
  · rw [eq_of_mem_fileOf hf]
    exact balanced_hclFile (balanced_of_mem_locals hm) _
  · rw [eq_of_mem_fileOf hf]
    exact balanced_hclFile (balanced_of_mem_data hm hnames) _
  · rw [eq_of_mem_fileOf hf]
    exact balanced_hclFile (balanced_of_mem_modules hm) _
  · exact absurd hpath (hbackend hf)
  iterate 2 exact absurd hpath (by simp [OutputFile.ofText])

end Files

/-- A text of the settings of a module is taken for a placeholder by its ends. It is one just if the
brace that closes its first one is the last character, and what is written for it is balanced just
then. If all texts of a module that look like placeholders are, all that is written for them is
balanced, and so are the files that hold it, as long as keys of data that become names of blocks are
identifiers. -/
theorem input_texts_written (m : TerraformModule) (name directory : String) (rs : List Record) :
    (∀ v : Value, ofInput v = ofPlaceholders v ↔ ∀ s ∈ inputTexts v, ClosesLast s) ∧
      (∀ s level, Balanced ((ofInputText s).write level) ↔ ClosesLast s) ∧
      ((∀ v ∈ m.inputValues, ∀ s ∈ inputTexts v, ClosesLast s) →
        (∀ v ∈ m.inputValues, ∀ level, Balanced ((ofInput v).write level)) ∧
          ((∀ d ∈ m.data, NamedWell (recordItems (ofInput d.body).entries)) →
            ∀ f ∈ files m name directory rs, f.path ∈ ["locals.tf", "data.tf", "modules.tf"] →
              ∃ text, f = .ofText f.path text ∧ Balanced text.toList)) := by
  refine ⟨fun v => ofInput_eq_ofPlaceholders_iff, fun s => balanced_write_ofInputText_iff,
    fun hm => ⟨fun v hv => balanced_write _ (balanced_of_mem_sources hm hv),
      balanced_of_mem_files hm name directory rs⟩⟩

/-- A local with one placeholder within another, data with one in a block, and a module with a text
that only begins like a placeholder. -/
theorem input_texts_written_shop :
    let m : TerraformModule :=
      { locals := [("host", .text "$\x7bjoin(\".\", [\"$\x7bvar.name\x7d\", var.zone])\x7d")]
        data := [⟨"aws_ami", "base",
          .mapping [("filter", .mapping [("name", .text "$\x7bvar.ami\x7d")])]⟩]
        modules := [⟨"net", "./net", none, [("cidr", .text "$\x7bvar.base\x7d/16")]⟩] }
    (∀ v ∈ m.inputValues, ∀ s ∈ inputTexts v, ClosesLast s) ∧
      (∀ d ∈ m.data, NamedWell (recordItems (ofInput d.body).entries)) ∧
      (∀ v ∈ m.inputValues, ∀ level, Balanced ((ofInput v).write level)) ∧
      ∀ f ∈ files m "shop" "terraform" [], f.path ∈ ["locals.tf", "data.tf", "modules.tf"] →
        ∃ text, f = .ofText f.path text ∧ Balanced text.toList := by
  intro m
  have hm : ∀ v ∈ m.inputValues, ∀ s ∈ inputTexts v, ClosesLast s := by decide +kernel
  have hnames : ∀ d ∈ m.data, NamedWell (recordItems (ofInput d.body).entries) := by decide +kernel
  obtain ⟨-, -, hwritten⟩ := input_texts_written m "shop" "terraform" []
  obtain ⟨hvalues, hfiles⟩ := hwritten hm
  exact ⟨hm, hnames, hvalues, hfiles hnames⟩

/-- Two placeholders in one text. -/
theorem joined_placeholders_unbalanced :
    let joined := "$\x7bvar.name\x7d.$\x7bvar.zone\x7d"
    isPlaceholder joined = false ∧
      ofInput (.text joined) = .expression "var.name\x7d.$\x7bvar.zone" ∧
      ofPlaceholders (.text joined) = .text joined ∧
      ¬ Balanced ((ofInput (.text joined)).write 0) ∧
      hclFile "locals.tf" [.block "locals" [] (attributes .ofInput [("host", .text joined)])] =
        .ofText "locals.tf" ("# Generated by deckhand 0.1.0. Do not edit by hand.\n\n" ++
          "locals \x7b\n  host = var.name\x7d.$\x7bvar.zone\n\x7d\n") := by
  intro joined
  have hends : placeholder? joined = some "var.name\x7d.$\x7bvar.zone" := by decide +kernel
  have hopen : ¬ isPlaceholder joined = true := by decide +kernel
  refine ⟨by decide +kernel, ?_, ?_, by decide +kernel, by decide +kernel⟩
  · rw [ofInput, convert, ofInputText_of_some hends]
  · rw [ofPlaceholders, convert, ofWholeText, if_neg hopen]

end Terraform

end Rollout
