/-!
# Computations that succeed

A computation in steps succeeds when every step does, and a list is treated successfully
when every item of it is.
-/

namespace Rollout

variable {ε ε' : Type u} {α β : Type v}

theorem bind_eq_ok_iff {x : Except ε α} {f : α → Except ε β} {b : β} :
    (x >>= f) = .ok b ↔ ∃ a, x = .ok a ∧ f a = .ok b := by
  cases x with
  | error e => simp [bind, Except.bind]
  | ok a => simp [bind, Except.bind]

theorem bind_eq_error_iff {x : Except ε α} {f : α → Except ε β} {e : ε} :
    (x >>= f) = .error e ↔ x = .error e ∨ ∃ a, x = .ok a ∧ f a = .error e := by
  cases x with
  | error e => simp [bind, Except.bind]
  | ok a => simp [bind, Except.bind]

theorem map_eq_ok_iff {x : Except ε α} {f : α → β} {b : β} :
    x.map f = .ok b ↔ ∃ a, x = .ok a ∧ f a = b := by
  cases x with
  | error e => simp [Except.map]
  | ok a => simp [Except.map]

theorem map_eq_error_iff {x : Except ε α} {f : α → β} {e : ε} :
    x.map f = .error e ↔ x = .error e := by
  cases x with
  | error e => simp [Except.map]
  | ok a => simp [Except.map]

theorem forall_map_eq_ok_iff {x : Except ε α} {f : α → β} {P : β → Prop} :
    (∀ b, x.map f = .ok b → P b) ↔ ∀ a, x = .ok a → P (f a) := by
  constructor
  · intro h a ha
    exact h (f a) (map_eq_ok_iff.mpr ⟨a, ha, rfl⟩)
  · intro h b hb
    obtain ⟨a, ha, rfl⟩ := map_eq_ok_iff.mp hb
    exact h a ha

/-- A check of the result, if there is one, tells that there is one. -/
theorem exists_ok_of_any {x : Except ε α} {q : α → Bool} (h : x.toOption.any q = true) :
    ∃ a, x = .ok a ∧ q a = true := by
  cases x with
  | error e => exact absurd h nofun
  | ok a => exact ⟨a, rfl, h⟩

theorem mapError_eq_ok_iff {x : Except ε α} {f : ε → ε'} {a : α} :
    x.mapError f = .ok a ↔ x = .ok a := by
  cases x with
  | error e =>
    change Except.error (f e) = .ok a ↔ _
    simp
  | ok b =>
    change Except.ok b = .ok a ↔ _
    simp

theorem mapError_eq_error_iff {x : Except ε α} {f : ε → ε'} {e : ε'} :
    x.mapError f = .error e ↔ ∃ e', x = .error e' ∧ f e' = e := by
  cases x with
  | error e' =>
    change Except.error (f e') = .error e ↔ _
    simp
  | ok a =>
    change Except.ok a = .error e ↔ _
    simp

section List

variable {f : α → Except ε β}

theorem mapM_cons_eq_ok_iff {a : α} {as : List α} {bs : List β} :
    (a :: as).mapM f = .ok bs ↔
      ∃ b rest, f a = .ok b ∧ as.mapM f = .ok rest ∧ bs = b :: rest := by
  rw [List.mapM_cons, bind_eq_ok_iff]
  constructor
  · rintro ⟨b, hb, h⟩
    obtain ⟨rest, hrest, h⟩ := bind_eq_ok_iff.mp h
    exact ⟨b, rest, hb, hrest, (Except.ok.inj h).symm⟩
  · rintro ⟨b, rest, hb, hrest, rfl⟩
    exact ⟨b, hb, bind_eq_ok_iff.mpr ⟨rest, hrest, rfl⟩⟩

/-- A list fails with the error of the first item that does. -/
theorem mapM_eq_error_iff {as : List α} {e : ε} :
    as.mapM f = .error e ↔
      ∃ before a after, as = before ++ a :: after ∧ (∀ b ∈ before, ∃ c, f b = .ok c) ∧
        f a = .error e := by
  induction as with
  | nil =>
    constructor
    · exact nofun
    · rintro ⟨before, a, after, h, -⟩
      exact absurd h.symm (List.append_ne_nil_of_right_ne_nil before (List.cons_ne_nil a after))
  | cons a as ih =>
    rw [List.mapM_cons, bind_eq_error_iff]
    constructor
    · rintro (ha | ⟨b, hb, h⟩)
      · exact ⟨[], a, as, rfl, fun _ h => absurd h List.not_mem_nil, ha⟩
      · obtain hrest | ⟨rest, -, h⟩ := bind_eq_error_iff.mp h
        · obtain ⟨before, c, after, rfl, hbefore, hc⟩ := ih.mp hrest
          exact ⟨a :: before, c, after, rfl, List.forall_mem_cons.mpr ⟨⟨b, hb⟩, hbefore⟩, hc⟩
        · exact absurd h nofun
    · rintro ⟨before, c, after, h, hbefore, hc⟩
      cases before with
      | nil =>
        obtain ⟨rfl, rfl⟩ := List.cons.inj h
        exact .inl hc
      | cons b before =>
        obtain ⟨rfl, rfl⟩ := List.cons.inj h
        obtain ⟨⟨b, hb⟩, hbefore⟩ := List.forall_mem_cons.mp hbefore
        have hrest := ih.mpr ⟨before, c, after, rfl, hbefore, hc⟩
        exact .inr ⟨b, hb, bind_eq_error_iff.mpr (.inl hrest)⟩

theorem length_of_mapM {as : List α} {bs : List β} (h : as.mapM f = .ok bs) :
    bs.length = as.length := by
  induction as generalizing bs with
  | nil =>
    obtain rfl := Except.ok.inj h
    rfl
  | cons a as ih =>
    obtain ⟨b, rest, -, hrest, rfl⟩ := mapM_cons_eq_ok_iff.mp h
    rw [List.length_cons, List.length_cons, ih hrest]

theorem exists_mem_of_mapM {as : List α} {bs : List β} (h : as.mapM f = .ok bs) {a : α}
    (ha : a ∈ as) : ∃ b ∈ bs, f a = .ok b := by
  induction as generalizing bs with
  | nil => exact absurd ha List.not_mem_nil
  | cons c as ih =>
    obtain ⟨b, rest, hb, hrest, rfl⟩ := mapM_cons_eq_ok_iff.mp h
    obtain rfl | ha := List.mem_cons.mp ha
    · exact ⟨b, List.mem_cons_self, hb⟩
    · obtain ⟨d, hd, hfd⟩ := ih hrest ha
      exact ⟨d, List.mem_cons_of_mem b hd, hfd⟩

theorem exists_of_mem_mapM {as : List α} {bs : List β} (h : as.mapM f = .ok bs) {b : β}
    (hb : b ∈ bs) : ∃ a ∈ as, f a = .ok b := by
  induction as generalizing bs with
  | nil =>
    obtain rfl := Except.ok.inj h
    exact absurd hb List.not_mem_nil
  | cons a as ih =>
    obtain ⟨c, rest, hc, hrest, rfl⟩ := mapM_cons_eq_ok_iff.mp h
    obtain rfl | hb := List.mem_cons.mp hb
    · exact ⟨a, List.mem_cons_self, hc⟩
    · obtain ⟨d, hd, hfd⟩ := ih hrest hb
      exact ⟨d, List.mem_cons_of_mem a hd, hfd⟩

/-- What holds of all results holds of what each item gives. -/
theorem forall_mem_mapM_iff {as : List α} {bs : List β} (h : as.mapM f = .ok bs) {P : β → Prop} :
    (∀ b ∈ bs, P b) ↔ ∀ a ∈ as, ∀ b, f a = .ok b → P b := by
  constructor
  · intro hall a ha b hb
    obtain ⟨c, hc, hfa⟩ := exists_mem_of_mapM h ha
    exact Except.ok.inj (hfa.symm.trans hb) ▸ hall c hc
  · intro hall b hb
    obtain ⟨a, ha, hfa⟩ := exists_of_mem_mapM h hb
    exact hall a ha b hfa

/-- A list is treated alike by what treats its items alike. -/
theorem mapM_congr {g : α → Except ε β} {as : List α}
    (h : ∀ a ∈ as, f a = g a) : as.mapM f = as.mapM g := by
  induction as with
  | nil => rfl
  | cons a as ih =>
    obtain ⟨ha, hrest⟩ := List.forall_mem_cons.mp h
    rw [List.mapM_cons, List.mapM_cons, ha, ih hrest]

/-- Items that are read back one by one are read back as a list. -/
theorem mapM_map_eq_ok {γ : Type v} {g : γ → α} {k : γ → β} {cs : List γ}
    (h : ∀ c ∈ cs, f (g c) = .ok (k c)) : (cs.map g).mapM f = .ok (cs.map k) := by
  induction cs with
  | nil => rfl
  | cons c cs ih =>
    refine mapM_cons_eq_ok_iff.mpr ⟨k c, cs.map k, h c List.mem_cons_self, ?_, rfl⟩
    exact ih fun d hd => h d (List.mem_cons_of_mem c hd)

end List

end Rollout
