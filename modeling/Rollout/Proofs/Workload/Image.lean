import Rollout.Proofs.Text
import Rollout.Workload.Basic

/-!
# What an image denotes

An image is written as a repository, a tag and a digest, of which the last two may be missing.
Every text is written in exactly one way like this, so it denotes one thing: what the digest
tells if there is one, and else what is under the tag, which is `latest` if none is given.
-/

namespace Rollout.Image

/-- The parts that an image is written of. -/
structure Name where
  repository : String
  tag : Option String
  digest : Option String
  repository_plain : '@' ∉ repository.toList
  tag_plain : ∀ t ∈ tag, '@' ∉ t.toList ∧ ':' ∉ t.toList ∧ '/' ∉ t.toList
  /-- Without a tag, a colon belongs to the registry. -/
  registry_colon : tag = none → ∀ a b, repository.toList = a ++ ':' :: b → '/' ∈ b

namespace Name

/-- The image up to its tag. -/
def tagged (n : Name) : String := n.repository ++ (n.tag.map (":" ++ ·)).getD ""

/-- The image as it is written. -/
def text (n : Name) : String := n.tagged ++ (n.digest.map ("@" ++ ·)).getD ""

theorem tagged_of_none {n : Name} (h : n.tag = none) : n.tagged = n.repository := by
  simp [tagged, h]

theorem toList_tagged {n : Name} {t : String} (h : n.tag = some t) :
    n.tagged.toList = n.repository.toList ++ ':' :: t.toList := by
  simp [tagged, h]

theorem digest_notMem_tagged (n : Name) : '@' ∉ n.tagged.toList := by
  cases h : n.tag with
  | none =>
    rw [tagged_of_none h]
    exact n.repository_plain
  | some t => simp [toList_tagged h, n.repository_plain, (n.tag_plain t h).1]

theorem cutAt_text (n : Name) :
    Text.cutAt '@' n.text = n.digest.map fun digest => (n.tagged, digest) := by
  cases h : n.digest with
  | none =>
    rw [Option.map_none, Text.cutAt_eq_none_iff]
    simpa [text, h] using n.digest_notMem_tagged
  | some digest =>
    exact Text.cutAt_eq_some_iff.mpr ⟨by simp [text, h], n.digest_notMem_tagged⟩

theorem cutLast_tagged (n : Name) {t : String} (h : n.tag = some t) :
    Text.cutLast ':' n.tagged = some (n.repository, t) :=
  Text.cutLast_eq_some_iff.mpr ⟨toList_tagged h, (n.tag_plain t h).2.1⟩

end Name

/-- The image before its digest. -/
def undigested (image : String) : String := ((Text.cutAt '@' image).map Prod.fst).getD image

theorem split_eq (image : String) : split image =
    match Text.cutLast ':' (undigested image) with
    | some (repository, tag) =>
      if tag.toList.contains '/' then (undigested image, none) else (repository, some tag)
    | none => (undigested image, none) := by
  unfold split undigested
  cases Text.cutAt '@' image <;> rfl

namespace Name

theorem undigested_text (n : Name) : undigested n.text = n.tagged := by
  rw [undigested, cutAt_text]
  cases h : n.digest with
  | none => simp [text, h]
  | some digest => rfl

/-- An image is split into the repository and the tag that it is written of. -/
theorem split_text (n : Name) : split n.text = (n.repository, n.tag) := by
  rw [split_eq, undigested_text]
  cases h : n.tag with
  | some t =>
    have hslash : '/' ∉ t.toList := (n.tag_plain t h).2.2
    simp [n.cutLast_tagged h, hslash]
  | none =>
    rw [tagged_of_none h]
    cases hlast : Text.cutLast ':' n.repository with
    | none => rfl
    | some parts =>
      obtain ⟨hparts, -⟩ := Text.cutLast_eq_some_iff.mp hlast
      have hslash : '/' ∈ parts.2.toList := n.registry_colon h _ _ hparts
      simp [hslash]

theorem cutAt_text_digest (n : Name) : (Text.cutAt '@' n.text).map Prod.snd = n.digest := by
  rw [cutAt_text]
  cases n.digest <;> rfl

/-- No text is written of other parts as well. -/
theorem text_injective {m n : Name} (h : m.text = n.text) :
    m.repository = n.repository ∧ m.tag = n.tag ∧ m.digest = n.digest := by
  have hsplit := m.split_text.symm.trans ((congrArg split h).trans n.split_text)
  have hdigest := m.cutAt_text_digest
  rw [h, n.cutAt_text_digest] at hdigest
  exact ⟨(Prod.mk.inj hsplit).1, (Prod.mk.inj hsplit).2, hdigest.symm⟩

end Name

/-- Every text without a digest is written of a repository and perhaps a tag. -/
theorem exists_tagged {s : String} (hs : '@' ∉ s.toList) (digest : Option String) :
    ∃ n : Name, n.tagged = s ∧ n.digest = digest := by
  cases hlast : Text.cutLast ':' s with
  | none =>
    have hcolon := Text.cutLast_eq_none_iff.mp hlast
    exact ⟨⟨s, none, digest, hs, nofun, fun _ a b h => absurd (by simp [h]) hcolon⟩, by
      simp [Name.tagged], rfl⟩
  | some parts =>
    obtain ⟨repository, tag⟩ := parts
    obtain ⟨hparts, hcolon⟩ := Text.cutLast_eq_some_iff.mp hlast
    by_cases hslash : '/' ∈ tag.toList
    · -- the last colon stands before a slash, and so do all others
      refine ⟨⟨s, none, digest, hs, nofun, fun _ a b h => ?_⟩, by simp [Name.tagged], rfl⟩
      have htag : tag.toList <:+ s.toList := ⟨repository.toList ++ [':'], by simp [hparts]⟩
      have hrest : ':' :: b <:+ s.toList := ⟨a, h.symm⟩
      obtain hin | hin := List.suffix_or_suffix_of_suffix hrest htag
      · exact absurd (hin.mem List.mem_cons_self) hcolon
      · obtain heq | hin := List.suffix_cons_iff.mp hin
        · exact absurd (by simp [heq]) hcolon
        · exact hin.mem hslash
    · rw [hparts, List.mem_append, List.mem_cons, not_or, not_or] at hs
      refine ⟨⟨repository, some tag, digest, hs.1, ?_, nofun⟩, ?_, rfl⟩
      · rintro t ⟨⟩
        exact ⟨hs.2.2, hcolon, hslash⟩
      · rw [← String.toList_inj, Name.toList_tagged rfl, hparts]

/-- Every text is written in this way. -/
theorem exists_name (image : String) : ∃ n : Name, n.text = image := by
  cases hcut : Text.cutAt '@' image with
  | none =>
    obtain ⟨n, htagged, hdigest⟩ := exists_tagged (Text.cutAt_eq_none_iff.mp hcut) none
    exact ⟨n, by simp [Name.text, htagged, hdigest]⟩
  | some parts =>
    obtain ⟨s, digest⟩ := parts
    obtain ⟨hparts, hs⟩ := Text.cutAt_eq_some_iff.mp hcut
    obtain ⟨n, htagged, hdigest⟩ := exists_tagged hs (some digest)
    refine ⟨n, ?_⟩
    rw [← String.toList_inj, hparts]
    simp [Name.text, htagged, hdigest]

/-! ### References -/

/-- An image of a repository. -/
inductive Reference where
  /-- What is found under a tag. -/
  | tagged (repository tag : String)
  /-- What has a digest, whatever its tags are. -/
  | pinned (repository digest : String)
deriving DecidableEq

/-- What is meant by the parts that an image is written of. -/
def Name.reference (n : Name) : Reference :=
  match n.digest with
  | some digest => .pinned n.repository digest
  | none => .tagged n.repository (n.tag.getD "latest")

/-- What is meant by an image as it is written. -/
def Denotes (image : String) (r : Reference) : Prop := ∃ n : Name, n.text = image ∧ n.reference = r

theorem denotes_text_iff {n : Name} {r : Reference} : Denotes n.text r ↔ n.reference = r := by
  constructor
  · rintro ⟨m, htext, rfl⟩
    obtain ⟨hrepository, htag, hdigest⟩ := Name.text_injective htext
    rw [Name.reference, Name.reference, hrepository, htag, hdigest]
  · exact fun h => ⟨n, rfl, h⟩

/-- Every image denotes one thing. -/
theorem existsUnique_denotes (image : String) :
    ∃ r, Denotes image r ∧ ∀ s, Denotes image s → s = r := by
  obtain ⟨n, rfl⟩ := exists_name image
  exact ⟨n.reference, denotes_text_iff.mpr rfl, fun s hs => (denotes_text_iff.mp hs).symm⟩

namespace Name

/-- The image without its digest, and with a tag in any case. -/
def withTag (n : Name) (fallback : String)
    (plain : '@' ∉ fallback.toList ∧ ':' ∉ fallback.toList ∧ '/' ∉ fallback.toList) : Name where
  repository := n.repository
  tag := some (n.tag.getD fallback)
  digest := none
  repository_plain := n.repository_plain
  tag_plain := by
    rintro t ⟨⟩
    cases h : n.tag with
    | none => exact plain
    | some t => exact n.tag_plain t h
  registry_colon := nofun

variable (n : Name) {fallback : String}
  (plain : '@' ∉ fallback.toList ∧ ':' ∉ fallback.toList ∧ '/' ∉ fallback.toList)

theorem text_withTag :
    (n.withTag fallback plain).text = n.repository ++ ":" ++ n.tag.getD fallback := by
  simp [text, tagged, withTag, String.append_assoc]

/-- A digest is not made up for, and a missing tag only by the tag that it stands for. -/
theorem reference_withTag_iff (hfallback : fallback ≠ "latest") :
    (n.withTag fallback plain).reference = n.reference ↔ n.tag.isSome ∧ n.digest = none := by
  cases hdigest : n.digest with
  | some digest => simp [reference, withTag, hdigest]
  | none => cases htag : n.tag <;> simp [reference, withTag, hdigest, htag, hfallback]

end Name

end Rollout.Image
