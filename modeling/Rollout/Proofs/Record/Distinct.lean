import Mathlib.Data.List.Nodup
import Rollout.Proofs.Record.Order

/-!
# Taking out repeated records more than once

Where a list is put together from parts, it makes no difference whether records that repeat an
identity are taken out of the parts first. What was seen before only ever takes records away
from those that stay without it, and from this all else follows.
-/

namespace Rollout.Record

variable {rs ss : List Record}

/-- Whoever has seen more keeps those records that are new to it as well. -/
theorem distinctFrom_eq_filter_distinctFrom {seen more : List Identity} (h : seen ⊆ more)
    (rs : List Record) :
    distinctFrom more rs = (distinctFrom seen rs).filter (·.identity ∉ more) := by
  induction rs generalizing seen more with
  | nil => rfl
  | cons r rs ih =>
    by_cases hmore : r.identity ∈ more
    · rw [distinctFrom_cons_of_mem hmore]
      by_cases hseen : r.identity ∈ seen
      · rw [distinctFrom_cons_of_mem hseen]
        exact ih h
      · rw [distinctFrom_cons_of_notMem hseen, List.filter_cons_of_neg (by simpa using hmore)]
        exact ih (List.cons_subset.mpr ⟨hmore, h⟩)
    · have hseen : r.identity ∉ seen := fun hmem => hmore (h hmem)
      rw [distinctFrom_cons_of_notMem hmore, distinctFrom_cons_of_notMem hseen,
        List.filter_cons_of_pos (by simpa using hmore), ih (List.cons_subset_cons _ h)]
      congr 1
      -- none of the records that are left has the identity of `r`
      refine List.filter_congr fun s hs => ?_
      have hne : s.identity ≠ r.identity := fun he =>
        identity_notMem_of_mem_distinctFrom hs (he ▸ List.mem_cons_self)
      simp [hne]

theorem distinctFrom_eq_filter (seen : List Identity) (rs : List Record) :
    distinctFrom seen rs = (distinct rs).filter (·.identity ∉ seen) :=
  distinctFrom_eq_filter_distinctFrom (List.nil_subset seen) rs

/-- What was seen counts as a set. -/
theorem distinctFrom_congr {seen seen' : List Identity} (h : ∀ id, id ∈ seen ↔ id ∈ seen')
    (rs : List Record) : distinctFrom seen rs = distinctFrom seen' rs := by
  rw [distinctFrom_eq_filter, distinctFrom_eq_filter]
  simp only [h]

theorem distinctFrom_append (seen : List Identity) (rs ss : List Record) :
    distinctFrom seen (rs ++ ss) =
      distinctFrom seen rs ++ distinctFrom (rs.map identity ++ seen) ss := by
  induction rs generalizing seen with
  | nil => rfl
  | cons r rs ih =>
    by_cases hr : r.identity ∈ seen
    · rw [List.cons_append, distinctFrom_cons_of_mem hr, distinctFrom_cons_of_mem hr, ih]
      congr 1
      refine distinctFrom_congr (fun id => ?_) ss
      simp only [List.map_cons, List.cons_append, List.mem_cons, List.mem_append]
      exact ⟨.inr, fun h => h.elim (fun he => .inr (he ▸ hr)) fun h => h⟩
    · rw [List.cons_append, distinctFrom_cons_of_notMem hr, distinctFrom_cons_of_notMem hr, ih,
        List.cons_append]
      congr 2
      refine distinctFrom_congr (fun id => ?_) ss
      simp only [List.map_cons, List.cons_append, List.mem_cons, List.mem_append]
      exact or_left_comm

/-- Of the second list those records stay whose identity is new. -/
theorem distinct_append (rs ss : List Record) : distinct (rs ++ ss) =
    distinct rs ++ (distinct ss).filter (·.identity ∉ (distinct rs).map identity) := by
  rw [distinct, distinctFrom_append, List.append_nil, distinctFrom_eq_filter (rs.map identity)]
  simp only [distinct, mem_identities_distinctFrom_iff, List.not_mem_nil, not_false_eq_true,
    and_true]

/-- Distinct records stand in the order in which their identities first occur. -/
theorem pairwise_idxOf_distinct (rs : List Record) : (distinct rs).Pairwise fun r s =>
    (rs.map identity).idxOf r.identity < (rs.map identity).idxOf s.identity := by
  -- the first record of an identity stands where the identity first occurs
  have hidx : ∀ r ∈ distinct rs, (rs.map identity).idxOf r.identity = rs.idxOf r := by
    intro r hr
    obtain ⟨before, after, rfl, hbefore⟩ := mem_distinct_iff.mp hr
    have hidentity : r.identity ∉ before.map identity := by
      intro hmem
      obtain ⟨s, hs, he⟩ := List.mem_map.mp hmem
      exact hbefore s hs he
    have hrecord : r ∉ before := fun hmem => hbefore r hmem rfl
    rw [List.map_append, List.map_cons, List.idxOf_append_of_notMem hidentity,
      List.idxOf_append_of_notMem hrecord, List.idxOf_cons_self, List.idxOf_cons_self,
      List.length_map]
  refine (pairwise_distinctFrom [] rs).imp_of_mem fun {r s} hr hs hlt => ?_
  rw [hidx r hr, hidx s hs]
  exact hlt

theorem mem_of_mem_distinct {r : Record} (h : r ∈ distinct rs) : r ∈ rs := by
  obtain ⟨before, after, rfl, -⟩ := mem_distinct_iff.mp h
  exact List.mem_append_right _ List.mem_cons_self

/-- Some record of the same object is kept. -/
theorem exists_mem_distinct_identity {r : Record} (hr : r ∈ rs) :
    ∃ k ∈ distinct rs, k.identity = r.identity :=
  List.mem_map.mp (mem_identities_distinctFrom_iff.mpr ⟨List.mem_map_of_mem hr, List.not_mem_nil⟩)

/-- A record is kept, or another one of the same object is kept in its place. -/
theorem mem_distinct_or {r : Record} (hr : r ∈ rs) :
    r ∈ distinct rs ∨ ∃ k ∈ distinct rs, k.identity = r.identity ∧ k ≠ r := by
  obtain ⟨k, hk, hidentity⟩ := exists_mem_distinct_identity hr
  by_cases he : k = r
  · exact .inl (he ▸ hk)
  · exact .inr ⟨k, hk, hidentity, he⟩

theorem distinct_distinct (rs : List Record) : distinct (distinct rs) = distinct rs :=
  distinct_of_nodup (nodup_distinctFrom [] rs)

/-- Lists that have the same distinct records are alike as parts of a list, too. -/
theorem distinct_append_congr {rs' ss' : List Record} (hr : distinct rs = distinct rs')
    (hs : distinct ss = distinct ss') : distinct (rs ++ ss) = distinct (rs' ++ ss') := by
  rw [distinct_append, distinct_append, hr, hs]

/-- By a coarser key, the distinct records are still told apart only if no two of all records that
share the key have two identities. -/
theorem nodup_map_distinct_iff {κ : Type} {key : Record → κ}
    (hkey : ∀ r s, r.identity = s.identity → key r = key s) (rs : List Record) :
    ((distinct rs).map key).Nodup ↔
      ∀ r ∈ rs, ∀ s ∈ rs, key r = key s → r.identity = s.identity := by
  constructor
  · intro hnodup r hr s hs he
    obtain ⟨r', hr', hidr⟩ := exists_mem_distinct_identity hr
    obtain ⟨s', hs', hids⟩ := exists_mem_distinct_identity hs
    have hsame : key r' = key s' := by rw [hkey r' r hidr, he, hkey s' s hids]
    obtain rfl := List.inj_on_of_nodup_map hnodup hr' hs' hsame
    exact hidr.symm.trans hids
  · intro h
    have hnodup := nodup_distinctFrom [] rs
    refine (List.Nodup.of_map identity hnodup).map_on fun r hr s hs he => ?_
    exact List.inj_on_of_nodup_map hnodup hr hs
      (h r (mem_of_mem_distinct hr) s (mem_of_mem_distinct hs) he)

/-- A step that keeps identities can be taken before or after. -/
theorem distinctFrom_map {f : Record → Record} (hf : ∀ r, (f r).identity = r.identity)
    (seen : List Identity) (rs : List Record) :
    distinctFrom seen (rs.map f) = (distinctFrom seen rs).map f := by
  induction rs generalizing seen with
  | nil => rfl
  | cons r rs ih =>
    by_cases hr : r.identity ∈ seen
    · rw [List.map_cons, distinctFrom_cons_of_mem (by rwa [hf]), distinctFrom_cons_of_mem hr, ih]
    · rw [List.map_cons, distinctFrom_cons_of_notMem (by rwa [hf]),
        distinctFrom_cons_of_notMem hr, List.map_cons, hf, ih]

/-- Before a step that makes equal identities equal again, records can be taken out as well. -/
theorem distinctFrom_map_distinctFrom {f : Record → Record}
    (hf : ∀ r s, r.identity = s.identity → (f r).identity = (f s).identity)
    {seen seen' : List Identity} (h : ∀ r, r.identity ∈ seen → (f r).identity ∈ seen')
    (rs : List Record) :
    distinctFrom seen' ((distinctFrom seen rs).map f) = distinctFrom seen' (rs.map f) := by
  induction rs generalizing seen seen' with
  | nil => rfl
  | cons r rs ih =>
    by_cases hr : r.identity ∈ seen
    · rw [distinctFrom_cons_of_mem hr, List.map_cons, distinctFrom_cons_of_mem (h r hr), ih h]
    · rw [distinctFrom_cons_of_notMem hr, List.map_cons, List.map_cons]
      by_cases hfr : (f r).identity ∈ seen'
      · rw [distinctFrom_cons_of_mem hfr, distinctFrom_cons_of_mem hfr]
        refine ih fun s hs => ?_
        obtain he | hs := List.mem_cons.mp hs
        · exact hf s r he ▸ hfr
        · exact h s hs
      · rw [distinctFrom_cons_of_notMem hfr, distinctFrom_cons_of_notMem hfr]
        refine congrArg (f r :: ·) (ih fun s hs => ?_)
        obtain he | hs := List.mem_cons.mp hs
        · exact hf s r he ▸ List.mem_cons_self
        · exact List.mem_cons_of_mem _ (h s hs)

theorem distinct_map_distinct {f : Record → Record}
    (hf : ∀ r s, r.identity = s.identity → (f r).identity = (f s).identity) (rs : List Record) :
    distinct ((distinct rs).map f) = distinct (rs.map f) :=
  distinctFrom_map_distinctFrom hf (fun _ hr => absurd hr List.not_mem_nil) rs

theorem distinct_map_congr {f : Record → Record} (hf : ∀ r, (f r).identity = r.identity)
    (h : distinct rs = distinct ss) : distinct (rs.map f) = distinct (ss.map f) := by
  rw [distinct, distinctFrom_map hf, distinct, distinctFrom_map hf]
  exact congrArg (List.map f) h

end Rollout.Record
