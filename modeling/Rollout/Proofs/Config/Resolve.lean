import Mathlib.Data.List.Induction
import Rollout.Config.Source
import Rollout.Proofs.Assoc
import Rollout.Proofs.Definition.Source

/-!
# What sources resolve into

Sources are resolved one after the other, and the first that cannot be resolved ends it. What comes
out holds under every key what the last source for that key gives, as a text or as other content but
never as both. A source may give a key more than once, as an environment file does; then its last
contribution for the key counts.
-/

namespace Rollout

section Last

variable {α : Type} {p : α → Prop} {a b c : α} {as : List α}

/-- The last element of a list that has a property. -/
def IsLast (p : α → Prop) (a : α) (as : List α) : Prop :=
  ∃ before after, as = before ++ a :: after ∧ p a ∧ ∀ b ∈ after, ¬ p b

theorem not_isLast_nil : ¬ IsLast p a [] := by
  rintro ⟨before, after, h, -⟩
  exact List.append_ne_nil_of_right_ne_nil before (List.cons_ne_nil a after) h.symm

theorem isLast_concat : IsLast p a (as ++ [c]) ↔ (a = c ∧ p c) ∨ (¬ p c ∧ IsLast p a as) := by
  constructor
  · rintro ⟨before, after, h, ha, hafter⟩
    obtain rfl | ⟨init, d, rfl⟩ := List.eq_nil_or_concat' after
    · obtain ⟨-, hc⟩ := List.append_inj' h rfl
      obtain rfl := (List.cons.inj hc).1
      exact .inl ⟨rfl, ha⟩
    · rw [← List.cons_append, ← List.append_assoc] at h
      obtain ⟨rfl, hc⟩ := List.append_inj' h rfl
      obtain rfl := (List.cons.inj hc).1
      obtain ⟨hinit, hlast⟩ := List.forall_mem_append.mp hafter
      exact .inr ⟨hlast c (List.mem_singleton_self c), before, init, rfl, ha, hinit⟩
  · rintro (⟨rfl, ha⟩ | ⟨hc, before, after, rfl, ha, hafter⟩)
    · exact ⟨as, [], rfl, ha, fun _ h => absurd h List.not_mem_nil⟩
    · refine ⟨before, after ++ [c], by simp, ha, List.forall_mem_append.mpr ⟨hafter, ?_⟩⟩
      exact List.forall_mem_singleton.mpr hc

theorem IsLast.mem (h : IsLast p a as) : a ∈ as := by
  obtain ⟨before, after, rfl, -⟩ := h
  exact List.mem_append_right before List.mem_cons_self

theorem IsLast.property (h : IsLast p a as) : p a := by
  obtain ⟨-, -, -, ha, -⟩ := h
  exact ha

theorem IsLast.unique (ha : IsLast p a as) (hb : IsLast p b as) : a = b := by
  induction as using List.reverseRecOn with
  | nil => exact absurd ha not_isLast_nil
  | append_singleton as c ih =>
    obtain ⟨rfl, hc⟩ | ⟨hc, ha⟩ := isLast_concat.mp ha
    · obtain ⟨rfl, -⟩ | ⟨hnot, -⟩ := isLast_concat.mp hb
      · rfl
      · exact absurd hc hnot
    · obtain ⟨-, hp⟩ | ⟨-, hb⟩ := isLast_concat.mp hb
      · exact absurd hp hc
      · exact ih ha hb

theorem exists_isLast_iff : (∃ a, IsLast p a as) ↔ ∃ a ∈ as, p a := by
  constructor
  · rintro ⟨a, ha⟩
    exact ⟨a, ha.mem, ha.property⟩
  · rintro ⟨a, ha, hp⟩
    induction as using List.reverseRecOn with
    | nil => exact absurd ha List.not_mem_nil
    | append_singleton as c ih =>
      by_cases hc : p c
      · exact ⟨c, isLast_concat.mpr (.inl ⟨rfl, hc⟩)⟩
      · obtain hold | hnew := List.mem_append.mp ha
        · obtain ⟨b, hb⟩ := ih hold
          exact ⟨b, isLast_concat.mpr (.inr ⟨hc, hb⟩)⟩
        · exact absurd (List.mem_singleton.mp hnew ▸ hp) hc

end Last

/-- What stands under a key: a text, or other content. -/
inductive Datum where
  | text (value : String)
  | binary (content : Bytes)
deriving DecidableEq

namespace ResolvedData

variable {d : ResolvedData}

/-- The data hold a datum under a key. -/
def Holds (d : ResolvedData) (key : String) : Datum → Prop
  | .text value => d.text.get? key = some value
  | .binary content => d.binary.get? key = some content

/-- Both maps are sorted by key, without a key twice. -/
structure IsSorted (d : ResolvedData) : Prop where
  text : d.text.IsSorted
  binary : d.binary.IsSorted

theorem exists_holds_iff {key : String} :
    (∃ x, d.Holds key x) ↔ key ∈ d.text.keys ∨ key ∈ d.binary.keys := by
  rw [Assoc.mem_keys_iff, Assoc.mem_keys_iff]
  constructor
  · rintro ⟨value | content, h⟩
    · exact .inl ⟨value, h⟩
    · exact .inr ⟨content, h⟩
  · rintro (⟨value, h⟩ | ⟨content, h⟩)
    · exact ⟨.text value, h⟩
    · exact ⟨.binary content, h⟩

end ResolvedData

namespace DataSource

namespace Contribution

/-- The key that a contribution is for. -/
def key : Contribution → String
  | text key _ | binary key _ | content key _ => key

/-- What a contribution gives its key. The content of a file is a text if it reads as one. -/
def datum : Contribution → Datum
  | text _ value => .text value
  | binary _ bytes => .binary bytes
  | content _ bytes =>
    match Bytes.text? bytes with
    | some value => .text value
    | none => .binary bytes

variable {c : Contribution} {d : ResolvedData} {key : String} {x : Datum}

theorem addTo_eq (d : ResolvedData) (c : Contribution) :
    c.addTo d = match c.datum with
      | .text value => d.insertText c.key value
      | .binary bytes => d.insertBinary c.key bytes := by
  cases c with
  | text | binary => rfl
  | content key bytes =>
    simp only [addTo, datum, ResolvedData.insertContent, Contribution.key]
    cases Bytes.text? bytes <;> rfl

/-- A contribution takes the place of what stood under its key, in either map, and changes nothing
under other keys. -/
theorem holds_addTo :
    (c.addTo d).Holds key x ↔ (c.key = key ∧ c.datum = x) ∨ (c.key ≠ key ∧ d.Holds key x) := by
  rw [addTo_eq]
  by_cases hkey : c.key = key
  · subst hkey
    cases c.datum <;> cases x <;>
      simp [ResolvedData.Holds, ResolvedData.insertText, ResolvedData.insertBinary,
        Assoc.get?_insertSorted, Assoc.get?_erase]
  · cases c.datum <;> cases x <;>
      simp [ResolvedData.Holds, ResolvedData.insertText, ResolvedData.insertBinary,
        Assoc.get?_insertSorted, Assoc.get?_erase, hkey, Ne.symm hkey]

theorem isSorted_addTo (hd : d.IsSorted) : (c.addTo d).IsSorted := by
  rw [addTo_eq]
  cases c.datum with
  | text value => exact ⟨hd.text.insertSorted c.key value, hd.binary.erase c.key⟩
  | binary bytes => exact ⟨hd.text.erase c.key, hd.binary.insertSorted c.key bytes⟩

/-- After all that a source gives, a key has what the last contribution for it gives, or what it had
if there is none. -/
theorem holds_foldl {given : List Contribution} :
    (given.foldl addTo d).Holds key x ↔
      (∃ c, IsLast (·.key = key) c given ∧ c.datum = x) ∨
        ((∀ c ∈ given, c.key ≠ key) ∧ d.Holds key x) := by
  induction given using List.reverseRecOn with
  | nil => simp [not_isLast_nil]
  | append_singleton given c ih =>
    rw [List.foldl_append, List.foldl_cons, List.foldl_nil, holds_addTo, ih]
    simp only [isLast_concat, List.forall_mem_append, List.forall_mem_singleton]
    by_cases hkey : c.key = key
    · simp [hkey]
    · simp [hkey]

theorem isSorted_foldl {given : List Contribution} (hd : d.IsSorted) :
    (given.foldl addTo d).IsSorted := by
  induction given generalizing d with
  | nil => exact hd
  | cons c given ih => exact ih (isSorted_addTo hd)

end Contribution

section Sources

variable (files : FileTree) (owner : String) (policy : MissingSources)

/-- A source contributes a key. -/
def Contributes (key : String) (s : DataSource) : Prop :=
  ∃ given, s.contributions files owner policy = .ok given ∧ ∃ c ∈ given, c.key = key

/-- What a source gives a key: what its last contribution for the key does. -/
def Gives (key : String) (x : Datum) (s : DataSource) : Prop :=
  ∃ given, s.contributions files owner policy = .ok given ∧
    ∃ c, IsLast (·.key = key) c given ∧ c.datum = x

/-- A source that reads what is not there. A file in the way of a path is another fault: what is
behind it cannot be read. -/
def IsMissing : DataSource → Prop
  | file _ path | binaryFile _ path | envFile path => files.Lacks path
  | directory path => files.isDirectory path = false
  | literal .. | json .. | yaml .. | properties .. | ini .. | template .. | binary .. => False

/-- The error is that of the first source that cannot be resolved. -/
def IsFirstError (sources : List DataSource) (e : SourceError) : Prop :=
  ∃ before s after, sources = before ++ s :: after ∧
    (∀ t ∈ before, ∃ given, t.contributions files owner policy = .ok given) ∧
    s.contributions files owner policy = .error e

/-- The data are what the sources give when a later source takes the place of an earlier one. -/
structure IsUnion (sources : List DataSource) (d : ResolvedData) : Prop where
  resolved : ∀ s ∈ sources, ∃ given, s.contributions files owner policy = .ok given
  sorted : d.IsSorted
  apart : ∀ key ∈ d.text.keys, key ∉ d.binary.keys
  keys : ∀ key, key ∈ d.text.keys ∨ key ∈ d.binary.keys ↔
    ∃ s ∈ sources, s.Contributes files owner policy key
  holds : ∀ key x, d.Holds key x ↔
    ∃ s, IsLast (Contributes files owner policy key) s sources ∧ s.Gives files owner policy key x

variable {files owner policy} {sources : List DataSource} {s : DataSource} {key : String}
  {x y : Datum} {d : ResolvedData}

theorem contributes_iff :
    s.Contributes files owner policy key ↔ ∃ x, s.Gives files owner policy key x := by
  constructor
  · rintro ⟨given, hgiven, hc⟩
    obtain ⟨c, hc⟩ := exists_isLast_iff.mpr hc
    exact ⟨c.datum, given, hgiven, c, hc, rfl⟩
  · rintro ⟨x, given, hgiven, c, hc, -⟩
    exact ⟨given, hgiven, c, hc.mem, hc.property⟩

theorem Gives.unique (hx : s.Gives files owner policy key x)
    (hy : s.Gives files owner policy key y) : x = y := by
  obtain ⟨given, hgiven, c, hc, rfl⟩ := hx
  obtain ⟨given', hgiven', c', hc', rfl⟩ := hy
  obtain rfl := Except.ok.inj (hgiven.symm.trans hgiven')
  rw [hc.unique hc']

theorem resolve_concat (sources : List DataSource) (s : DataSource) :
    resolve files owner policy (sources ++ [s]) = (do
      let d ← resolve files owner policy sources
      let given ← s.contributions files owner policy
      .ok (given.foldl Contribution.addTo d)) := by
  simp only [resolve, List.mapM_append, List.mapM_cons, List.mapM_nil]
  cases sources.mapM (contributions files owner policy) with
  | error e => rfl
  | ok given =>
    cases s.contributions files owner policy with
    | error e => simp [bind, Except.bind]
    | ok own => simp [bind, Except.bind, pure, Except.pure, List.foldl_append]

theorem isSorted_of_resolve (h : resolve files owner policy sources = .ok d) : d.IsSorted := by
  obtain ⟨given, -, h⟩ := bind_eq_ok_iff.mp h
  obtain rfl := Except.ok.inj h
  exact Contribution.isSorted_foldl ⟨.nil, .nil⟩

/-- Sources are applied in order: a key has what the last source for it gives. -/
theorem holds_of_resolve (h : resolve files owner policy sources = .ok d) (key : String)
    (x : Datum) :
    d.Holds key x ↔ ∃ s, IsLast (Contributes files owner policy key) s sources ∧
      s.Gives files owner policy key x := by
  induction sources using List.reverseRecOn generalizing d with
  | nil =>
    obtain rfl := Except.ok.inj h
    cases x <;> simp [ResolvedData.Holds, not_isLast_nil, Assoc.get?_nil]
  | append_singleton sources s ih =>
    rw [resolve_concat] at h
    obtain ⟨earlier, hearlier, h⟩ := bind_eq_ok_iff.mp h
    obtain ⟨given, hgiven, h⟩ := bind_eq_ok_iff.mp h
    obtain rfl := Except.ok.inj h
    -- the last source either gives the key or leaves what the earlier ones gave it
    have hgives : s.Gives files owner policy key x ↔
        ∃ c, IsLast (·.key = key) c given ∧ c.datum = x := by
      simp [Gives, hgiven]
    have hnone : ¬ s.Contributes files owner policy key ↔ ∀ c ∈ given, c.key ≠ key := by
      simp [Contributes, hgiven]
    rw [Contribution.holds_foldl, ← hgives, ← hnone, ih hearlier]
    simp only [isLast_concat]
    constructor
    · rintro (hs | ⟨hs, t, ht, hx⟩)
      · exact ⟨s, .inl ⟨rfl, contributes_iff.mpr ⟨x, hs⟩⟩, hs⟩
      · exact ⟨t, .inr ⟨hs, ht⟩, hx⟩
    · rintro ⟨t, ⟨rfl, -⟩ | ⟨hs, ht⟩, hx⟩
      · exact .inl hx
      · exact .inr ⟨hs, t, ht, hx⟩

theorem isUnion_of_resolve (h : resolve files owner policy sources = .ok d) :
    IsUnion files owner policy sources d where
  resolved := by
    intro s hs
    obtain ⟨given, hgiven, -⟩ := bind_eq_ok_iff.mp h
    obtain ⟨own, -, hown⟩ := exists_mem_of_mapM hgiven hs
    exact ⟨own, hown⟩
  sorted := isSorted_of_resolve h
  apart := by
    intro key htext hbinary
    obtain ⟨value, hvalue⟩ := Assoc.mem_keys_iff.mp htext
    obtain ⟨content, hcontent⟩ := Assoc.mem_keys_iff.mp hbinary
    obtain ⟨s, hs, hx⟩ := (holds_of_resolve h key (.text value)).mp hvalue
    obtain ⟨t, ht, hy⟩ := (holds_of_resolve h key (.binary content)).mp hcontent
    obtain rfl := hs.unique ht
    exact absurd (hx.unique hy) nofun
  keys := by
    intro key
    rw [← ResolvedData.exists_holds_iff, ← exists_isLast_iff]
    constructor
    · rintro ⟨x, hx⟩
      obtain ⟨s, hs, -⟩ := (holds_of_resolve h key x).mp hx
      exact ⟨s, hs⟩
    · rintro ⟨s, hs⟩
      obtain ⟨x, hx⟩ := contributes_iff.mp hs.property
      exact ⟨x, (holds_of_resolve h key x).mpr ⟨s, hs, hx⟩⟩
  holds := holds_of_resolve h

theorem isFirstError_of_resolve {e : SourceError}
    (h : resolve files owner policy sources = .error e) :
    IsFirstError files owner policy sources e := by
  obtain h | ⟨given, -, h⟩ := bind_eq_error_iff.mp h
  · exact mapM_eq_error_iff.mp h
  · exact absurd h nofun

/-- A comment that names the path stands in for what is not there. -/
theorem contributions_of_isMissing (hs : s.IsMissing files) :
    ∃ key what path, s.path? = some path ∧
      s.contributions files owner .placeholder = .ok [.text key (placeholderText what path)] := by
  have hread {path : String} (h : files.Lacks path) :
      readFile files owner .placeholder path = .ok none := by
    rw [readFile, FileTree.read_eq_notFound_iff.mpr h]
  cases s with
  | literal | json | yaml | properties | ini | template | binary => exact hs.elim
  | file key path | binaryFile key path =>
    refine ⟨key.getD (fileKey path), "file", path, rfl, ?_⟩
    rw [contributions, hread hs]
    rfl
  | envFile path =>
    refine ⟨fileKey path, "env file", path, rfl, ?_⟩
    rw [contributions, hread hs]
    rfl
  | directory path =>
    refine ⟨fileKey path, "directory", path, rfl, ?_⟩
    have hnone : files.isDirectory path = false := hs
    simp [contributions, hnone]

/-- Where comments may stand in, a source fails only for a path whose fault is another one than that
nothing is there. -/
theorem contributions_eq_error {e : SourceError}
    (h : s.contributions files owner .placeholder = .error e) :
    ∃ path fault, s.path? = some path ∧ files.read path = .error fault ∧ fault ≠ .notFound ∧
      e = .unreadable owner path fault := by
  have hread {path : String} (h : readFile files owner .placeholder path = .error e) :
      ∃ fault, files.read path = .error fault ∧ fault ≠ .notFound ∧
        e = .unreadable owner path fault := by
    unfold readFile at h
    split at h
    next => cases h
    next => cases h
    next fault hne hfault => exact ⟨fault, hfault, hne, (Except.error.inj h).symm⟩
  cases s with
  | file _ path | binaryFile _ path | envFile path =>
    obtain hfails | ⟨content, -, h⟩ := bind_eq_error_iff.mp h
    · exact ⟨path, (hread hfails).imp fun fault hfault => ⟨rfl, hfault⟩⟩
    · cases content <;> cases h
  | directory path =>
    simp only [contributions] at h
    split at h <;> cases h
  | _ => cases h

end Sources

end DataSource

end Rollout
