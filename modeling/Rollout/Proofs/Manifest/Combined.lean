import Rollout.Proofs.Manifest
import Rollout.Proofs.Record.FileName
import Rollout.Proofs.Yaml.Line

/-!
# Combined manifests

The documents of all records, joined by lines with three dashes, are one text that is read as the
list of these documents. Whatever the records hold, even documents of their own, no line of a
document is taken for one that separates two of them.
-/

namespace Rollout.Manifest

variable (o : ManifestOptions) {rs : List Record}

/-- A text is cut into documents at the lines that hold the marker and nothing else. -/
structure CutsInto (s : String) (docs : List String) : Prop where
  split : Yaml.splitDocuments Yaml.isBreak s = docs
  /-- No line of a document begins with the marker, whichever line ends are counted. -/
  unmarked : ∀ d ∈ docs, ∀ ends : Char → Bool, (∀ c, ends c = true → Yaml.isBreak c = true) →
    ∀ line ∈ Yaml.lines ends d.toList, ¬ Yaml.marker <+: line
  /-- Where line feeds alone are counted, each document but the last has to end in one. -/
  splitFeeds : (∀ d ∈ docs.dropLast, d.toList.getLast? = some '\n') →
    Yaml.splitDocuments (· = '\n') s = docs

/-- The file names go with the documents, and none of these gets lost. -/
theorem texts_documents (rs : List Record) :
    (documents o rs).map (·.2) = (prepare o rs).map documentText := by
  have hlength : ((prepare o rs).map documentText).length ≤
      (Record.fileNames (prepare o rs)).length := by
    rw [Record.length_fileNames, List.length_map]
  exact List.map_snd_zip hlength

theorem prepare_ne_nil (hrs : rs ≠ []) : prepare o rs ≠ [] := by
  obtain ⟨r, rest, rfl⟩ := List.exists_cons_of_ne_nil hrs
  refine List.ne_nil_of_mem ((mem_prepare_iff o).mpr ⟨[], r, rest, rfl, rfl, ?_⟩)
  exact fun _ h => absurd h List.not_mem_nil

/-- Documents that have no line with the marker and end their lines are what the text is cut into
that joins them. -/
theorem cutsInto_intercalate {docs : List String} (hne : docs ≠ [])
    (hunmarked : ∀ d ∈ docs, Yaml.Unmarked true d.toList) :
    CutsInto (separator.intercalate docs) docs := by
  have hlines : ∀ d ∈ docs, ∀ ends : Char → Bool, (∀ c, ends c = true → Yaml.isBreak c = true) →
      ∀ line ∈ Yaml.lines ends d.toList, ¬ Yaml.marker <+: line :=
    fun d hd ends hends => (hunmarked d hd).not_prefix_of_mem_lines hends
  refine ⟨?_, hlines, fun hfeed => ?_⟩
  · exact Yaml.splitDocuments_intercalate rfl rfl hne
      (fun d hd => (hunmarked d (List.mem_of_mem_dropLast hd)).isClosed)
      fun d hd => hlines d hd _ fun _ => id
  · refine Yaml.splitDocuments_intercalate rfl rfl hne (fun d hd c hc => ?_) fun d hd => ?_
    · rw [hfeed d hd] at hc
      obtain rfl := Option.some.inj hc
      rfl
    · refine hlines d hd _ fun c hc => ?_
      obtain rfl : c = '\n' := of_decide_eq_true hc
      rfl

end Rollout.Manifest
