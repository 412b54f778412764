import Mathlib.Data.List.Basic
import Rollout.Record.Order

/-!
# One record for each identity, in the order of application

Of the records with one identity the first stays. The order of application is total, so
that sorting by it keeps the order of those that it does not tell apart.
-/

namespace Rollout.Record

theorem nameLe_trans {a b c : Option String} (hab : nameLe a b = true)
    (hbc : nameLe b c = true) : nameLe a c = true := by
  cases a with
  | none => rfl
  | some a =>
    cases b with
    | none => simp [nameLe] at hab
    | some b =>
      cases c with
      | none => simp [nameLe] at hbc
      | some c =>
        simp only [nameLe, decide_eq_true_eq] at hab hbc ⊢
        exact String.le_trans hab hbc

theorem nameLe_total (a b : Option String) : nameLe a b = true ∨ nameLe b a = true := by
  cases a with
  | none => exact .inl rfl
  | some a =>
    cases b with
    | none => exact .inr rfl
    | some b => simpa [nameLe] using String.le_total a b

theorem appliedBefore_iff {a b : Record} : appliedBefore a b = true ↔
    Kind.priority a.kind < Kind.priority b.kind ∨
      Kind.priority a.kind = Kind.priority b.kind ∧
        (Kind.priority a.kind = Kind.lastPriority → nameLe a.name? b.name? = true) := by
  simp only [appliedBefore, Bool.or_eq_true, Bool.and_eq_true, decide_eq_true_eq, beq_iff_eq,
    bne_iff_ne, ne_eq, Decidable.imp_iff_not_or]

theorem appliedBefore_trans (a b c : Record) (hab : appliedBefore a b = true)
    (hbc : appliedBefore b c = true) : appliedBefore a c = true := by
  rw [appliedBefore_iff] at hab hbc ⊢
  obtain hlt | ⟨heq, hname⟩ := hab
  · obtain hlt' | ⟨heq', -⟩ := hbc
    · exact .inl (Nat.lt_trans hlt hlt')
    · exact .inl (heq' ▸ hlt)
  · obtain hlt' | ⟨heq', hname'⟩ := hbc
    · exact .inl (heq ▸ hlt')
    · refine .inr ⟨heq.trans heq', fun hlast => ?_⟩
      exact nameLe_trans (hname hlast) (hname' (heq ▸ hlast))

theorem appliedBefore_total (a b : Record) :
    (appliedBefore a b || appliedBefore b a) = true := by
  rw [Bool.or_eq_true, appliedBefore_iff, appliedBefore_iff]
  obtain hlt | heq | hgt := Nat.lt_trichotomy (Kind.priority a.kind) (Kind.priority b.kind)
  · exact .inl (.inl hlt)
  · obtain h | h := nameLe_total a.name? b.name?
    · exact .inl (.inr ⟨heq, fun _ => h⟩)
    · exact .inr (.inr ⟨heq.symm, fun _ => h⟩)
  · exact .inr (.inl hgt)

theorem pairwise_sortForApply (rs : List Record) :
    (sortForApply rs).Pairwise fun a b => appliedBefore a b = true :=
  List.pairwise_mergeSort appliedBefore_trans appliedBefore_total rs

theorem sortForApply_perm (rs : List Record) : (sortForApply rs).Perm rs :=
  List.mergeSort_perm rs appliedBefore

theorem sortForApply_of_pairwise {rs : List Record}
    (h : rs.Pairwise fun a b => appliedBefore a b = true) : sortForApply rs = rs :=
  List.mergeSort_of_pairwise h

/-- Records that the order of application does not tell apart keep their order. -/
theorem filter_sortForApply {p : Record → Bool} (rs : List Record)
    (h : ∀ a b, p a = true → p b = true → appliedBefore a b = true) :
    (sortForApply rs).filter p = rs.filter p := by
  have hpairwise : (rs.filter p).Pairwise fun a b => appliedBefore a b = true :=
    List.pairwise_of_forall_mem_list fun a ha b hb =>
      h a b (List.mem_filter.mp ha).2 (List.mem_filter.mp hb).2
  have hsublist : (rs.filter p).Sublist ((sortForApply rs).filter p) := by
    have hsort := List.sublist_mergeSort appliedBefore_trans appliedBefore_total hpairwise
      List.filter_sublist
    simpa [List.filter_filter, sortForApply] using hsort.filter p
  exact (hsublist.eq_of_length ((sortForApply_perm rs).filter p).length_eq.symm).symm

/-- The records of one known kind keep their order. -/
theorem filter_kind_sortForApply {kind : String}
    (h : Kind.priority kind ≠ Kind.lastPriority) (rs : List Record) :
    (sortForApply rs).filter (·.kind = kind) = rs.filter (·.kind = kind) := by
  refine filter_sortForApply rs fun a b ha hb => ?_
  have ha' : a.kind = kind := of_decide_eq_true ha
  have hb' : b.kind = kind := of_decide_eq_true hb
  rw [appliedBefore_iff, ha', hb']
  exact .inr ⟨rfl, fun hlast => absurd hlast h⟩

section Distinct

variable {seen : List Identity}

theorem distinctFrom_cons_of_mem {r : Record} (h : r.identity ∈ seen) (rs : List Record) :
    distinctFrom seen (r :: rs) = distinctFrom seen rs := by
  rw [distinctFrom, if_pos (List.contains_iff_mem.mpr h)]

theorem distinctFrom_cons_of_notMem {r : Record} (h : r.identity ∉ seen) (rs : List Record) :
    distinctFrom seen (r :: rs) = r :: distinctFrom (r.identity :: seen) rs := by
  rw [distinctFrom, if_neg (by rwa [List.contains_iff_mem])]

/-- What is kept is the first record of an identity that was not seen before. -/
theorem mem_distinctFrom_iff {rs : List Record} {r : Record} :
    r ∈ distinctFrom seen rs ↔ r.identity ∉ seen ∧ ∃ before after,
      rs = before ++ r :: after ∧ ∀ s ∈ before, s.identity ≠ r.identity := by
  induction rs generalizing seen with
  | nil => simp [distinctFrom]
  | cons s rs ih =>
    constructor
    · intro h
      by_cases hs : s.identity ∈ seen
      · rw [distinctFrom_cons_of_mem hs, ih] at h
        obtain ⟨hr, before, after, rfl, hbefore⟩ := h
        refine ⟨hr, s :: before, after, rfl, ?_⟩
        rintro t (_ | ⟨_, ht⟩)
        · exact fun he => hr (he ▸ hs)
        · exact hbefore t ht
      · rw [distinctFrom_cons_of_notMem hs, List.mem_cons, ih] at h
        obtain rfl | ⟨hr, before, after, rfl, hbefore⟩ := h
        · exact ⟨hs, [], rs, rfl, by simp⟩
        · rw [List.mem_cons, not_or] at hr
          refine ⟨hr.2, s :: before, after, rfl, ?_⟩
          rintro t (_ | ⟨_, ht⟩)
          · exact Ne.symm hr.1
          · exact hbefore t ht
    · rintro ⟨hr, before, after, hrs, hbefore⟩
      cases before with
      | nil =>
        obtain ⟨rfl, rfl⟩ := List.cons.inj hrs
        rw [distinctFrom_cons_of_notMem hr]
        exact List.mem_cons_self
      | cons t before =>
        obtain ⟨rfl, rfl⟩ := List.cons.inj hrs
        have hrest : ∃ b a, before ++ r :: after = b ++ r :: a ∧
            ∀ t ∈ b, t.identity ≠ r.identity :=
          ⟨before, after, rfl, fun t ht => hbefore t (List.mem_cons_of_mem s ht)⟩
        by_cases hs : s.identity ∈ seen
        · rw [distinctFrom_cons_of_mem hs]
          exact ih.mpr ⟨hr, hrest⟩
        · rw [distinctFrom_cons_of_notMem hs]
          refine List.mem_cons_of_mem s (ih.mpr ⟨?_, hrest⟩)
          rw [List.mem_cons, not_or]
          exact ⟨Ne.symm (hbefore s List.mem_cons_self), hr⟩

theorem identity_notMem_of_mem_distinctFrom {rs : List Record} {r : Record}
    (h : r ∈ distinctFrom seen rs) : r.identity ∉ seen :=
  (mem_distinctFrom_iff.mp h).1

/-- Every identity that was not seen before keeps a record. -/
theorem mem_identities_distinctFrom_iff {rs : List Record} {id : Identity} :
    id ∈ (distinctFrom seen rs).map identity ↔ id ∈ rs.map identity ∧ id ∉ seen := by
  induction rs generalizing seen with
  | nil => simp [distinctFrom]
  | cons r rs ih =>
    by_cases hr : r.identity ∈ seen
    · rw [distinctFrom_cons_of_mem hr, ih, List.map_cons, List.mem_cons]
      constructor
      · exact fun h => ⟨.inr h.1, h.2⟩
      · rintro ⟨rfl | h, hid⟩
        · exact absurd hr hid
        · exact ⟨h, hid⟩
    · rw [distinctFrom_cons_of_notMem hr, List.map_cons, List.map_cons, List.mem_cons,
        List.mem_cons, ih, List.mem_cons, not_or]
      constructor
      · rintro (rfl | h)
        · exact ⟨.inl rfl, hr⟩
        · exact ⟨.inr h.1, h.2.2⟩
      · rintro ⟨rfl | h, hid⟩
        · exact .inl rfl
        · by_cases he : id = r.identity
          · exact .inl he
          · exact .inr ⟨h, he, hid⟩

theorem nodup_distinctFrom (seen : List Identity) (rs : List Record) :
    ((distinctFrom seen rs).map identity).Nodup := by
  induction rs generalizing seen with
  | nil => exact List.nodup_nil
  | cons r rs ih =>
    by_cases hr : r.identity ∈ seen
    · rw [distinctFrom_cons_of_mem hr]
      exact ih seen
    · rw [distinctFrom_cons_of_notMem hr, List.map_cons, List.nodup_cons]
      refine ⟨?_, ih _⟩
      rintro hmem
      obtain ⟨s, hs, he⟩ := List.mem_map.mp hmem
      exact identity_notMem_of_mem_distinctFrom hs (by simp [he])

/-- The records stand in the order in which each first occurs. -/
theorem pairwise_distinctFrom (seen : List Identity) (rs : List Record) :
    (distinctFrom seen rs).Pairwise fun r s => rs.idxOf r < rs.idxOf s := by
  induction rs generalizing seen with
  | nil => exact List.Pairwise.nil
  | cons t rs ih =>
    -- a record whose identity was not seen is not `t`, so `t` moves it one place back
    have hshift : ∀ {seen}, t.identity ∈ seen →
        (distinctFrom seen rs).Pairwise fun r s => (t :: rs).idxOf r < (t :: rs).idxOf s := by
      intro seen ht
      refine (ih seen).imp_of_mem fun {r s} hr hs hlt => ?_
      have hne : ∀ u ∈ distinctFrom seen rs, t ≠ u := by
        rintro u hu rfl
        exact identity_notMem_of_mem_distinctFrom hu ht
      rw [List.idxOf_cons_ne rs (hne r hr), List.idxOf_cons_ne rs (hne s hs)]
      omega
    by_cases ht : t.identity ∈ seen
    · rw [distinctFrom_cons_of_mem ht]
      exact hshift ht
    · rw [distinctFrom_cons_of_notMem ht]
      refine List.Pairwise.cons ?_ (hshift List.mem_cons_self)
      intro s hs
      have hne : t ≠ s := by
        rintro rfl
        exact identity_notMem_of_mem_distinctFrom hs List.mem_cons_self
      rw [List.idxOf_cons_self, List.idxOf_cons_ne rs hne]
      omega

theorem distinctFrom_of_nodup {rs : List Record} (h : (rs.map identity).Nodup)
    (hseen : ∀ r ∈ rs, r.identity ∉ seen) : distinctFrom seen rs = rs := by
  induction rs generalizing seen with
  | nil => rfl
  | cons r rs ih =>
    rw [List.map_cons, List.nodup_cons] at h
    rw [distinctFrom_cons_of_notMem (hseen r List.mem_cons_self), ih h.2]
    intro s hs
    rw [List.mem_cons, not_or]
    refine ⟨fun he => h.1 ?_, hseen s (List.mem_cons_of_mem r hs)⟩
    exact he ▸ List.mem_map_of_mem hs

end Distinct

theorem mem_distinct_iff {rs : List Record} {r : Record} : r ∈ distinct rs ↔
    ∃ before after, rs = before ++ r :: after ∧ ∀ s ∈ before, s.identity ≠ r.identity := by
  rw [distinct, mem_distinctFrom_iff]
  exact and_iff_right List.not_mem_nil

theorem distinct_of_nodup {rs : List Record} (h : (rs.map identity).Nodup) : distinct rs = rs :=
  distinctFrom_of_nodup h fun _ _ => List.not_mem_nil

end Rollout.Record
