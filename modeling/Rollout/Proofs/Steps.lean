/-!
# Steps that may fail

A computation in steps that change a state ends with a value and a state when every step does. It
fails where its first step fails that does not end.
-/

namespace Rollout

variable {ε σ α β : Type}

/-- Computed from a state, `x` succeeds with a value and leaves another state. -/
def Ends (x : ExceptT ε (StateM σ) α) (s : σ) (a : α) (t : σ) : Prop := x.run.run s = (.ok a, t)

section Ends

variable {s t : σ}

theorem ends_bind_iff {x : ExceptT ε (StateM σ) α} {f : α → ExceptT ε (StateM σ) β} {b : β} :
    Ends (x >>= f) s b t ↔ ∃ a r, Ends x s a r ∧ Ends (f a) r b t := by
  unfold Ends
  rw [ExceptT.run_bind, StateT.run_bind]
  rcases hx : x.run.run s with ⟨result, r⟩
  cases result with
  | ok a =>
    constructor
    · intro h
      exact ⟨a, r, rfl, h⟩
    · rintro ⟨a', r', h, h'⟩
      obtain ⟨ha, rfl⟩ := Prod.mk.inj h
      obtain rfl := Except.ok.inj ha
      exact h'
  | error e =>
    constructor
    · intro h
      exact absurd (congrArg Prod.fst h) nofun
    · rintro ⟨a', r', h, -⟩
      exact absurd (congrArg Prod.fst h) nofun

theorem ends_pure_iff {a b : α} : Ends (pure a : ExceptT ε (StateM σ) α) s b t ↔ a = b ∧ s = t := by
  constructor
  · intro h
    obtain ⟨ha, rfl⟩ := Prod.mk.inj h
    exact ⟨Except.ok.inj ha, rfl⟩
  · rintro ⟨rfl, rfl⟩
    rfl

theorem not_ends_throw {e : ε} {a : α} : ¬ Ends (throw e : ExceptT ε (StateM σ) α) s a t :=
  fun h => absurd (congrArg Prod.fst h) nofun

theorem ends_get_iff {r : σ} : Ends (get : ExceptT ε (StateM σ) σ) s r t ↔ s = r ∧ s = t := by
  constructor
  · intro h
    obtain ⟨hr, rfl⟩ := Prod.mk.inj h
    exact ⟨Except.ok.inj hr, rfl⟩
  · rintro ⟨rfl, rfl⟩
    rfl

theorem ends_set_iff {r : σ} {u : PUnit} :
    Ends (set r : ExceptT ε (StateM σ) PUnit) s u t ↔ r = t := by
  constructor
  · intro h
    exact (Prod.mk.inj h).2
  · rintro rfl
    rfl

/-- Reading the state leaves it as it is. -/
theorem ends_get_bind_iff {f : σ → ExceptT ε (StateM σ) β} {b : β} :
    Ends (get >>= f) s b t ↔ Ends (f s) s b t := by
  rw [ends_bind_iff]
  constructor
  · rintro ⟨_, _, hget, h⟩
    obtain ⟨rfl, rfl⟩ := ends_get_iff.mp hget
    exact h
  · intro h
    exact ⟨s, s, ends_get_iff.mpr ⟨rfl, rfl⟩, h⟩

end Ends

/-- Computed from a state, `x` fails with an error and leaves another state. -/
def Fails (x : ExceptT ε (StateM σ) α) (s : σ) (e : ε) (t : σ) : Prop := x.run.run s = (.error e, t)

section Fails

variable {s t : σ} {e : ε}

theorem fails_bind_iff {x : ExceptT ε (StateM σ) α} {f : α → ExceptT ε (StateM σ) β} :
    Fails (x >>= f) s e t ↔ Fails x s e t ∨ ∃ a r, Ends x s a r ∧ Fails (f a) r e t := by
  unfold Fails Ends
  rw [ExceptT.run_bind, StateT.run_bind]
  rcases hx : x.run.run s with ⟨result, r⟩
  cases result with
  | ok a =>
    constructor
    · intro h
      exact .inr ⟨a, r, rfl, h⟩
    · rintro (h | ⟨a', r', h, h'⟩)
      · exact absurd (congrArg Prod.fst h) nofun
      · obtain ⟨ha, rfl⟩ := Prod.mk.inj h
        obtain rfl := Except.ok.inj ha
        exact h'
  | error e' =>
    constructor
    · intro h
      obtain ⟨he, rfl⟩ := Prod.mk.inj h
      obtain rfl := Except.error.inj he
      exact .inl rfl
    · rintro (h | ⟨a', r', h, -⟩)
      · obtain ⟨he, rfl⟩ := Prod.mk.inj h
        obtain rfl := Except.error.inj he
        rfl
      · exact absurd (congrArg Prod.fst h) nofun

theorem not_fails_pure {a : α} : ¬ Fails (pure a : ExceptT ε (StateM σ) α) s e t :=
  fun h => absurd (congrArg Prod.fst h) nofun

theorem not_fails_get : ¬ Fails (get : ExceptT ε (StateM σ) σ) s e t :=
  fun h => absurd (congrArg Prod.fst h) nofun

theorem not_fails_set {r : σ} : ¬ Fails (set r : ExceptT ε (StateM σ) PUnit) s e t :=
  fun h => absurd (congrArg Prod.fst h) nofun

theorem fails_throw_iff {e' : ε} :
    Fails (throw e' : ExceptT ε (StateM σ) α) s e t ↔ e' = e ∧ s = t := by
  constructor
  · intro h
    obtain ⟨he, rfl⟩ := Prod.mk.inj h
    exact ⟨Except.error.inj he, rfl⟩
  · rintro ⟨rfl, rfl⟩
    rfl

/-- Reading the state is no step that fails. -/
theorem fails_get_bind_iff {f : σ → ExceptT ε (StateM σ) β} :
    Fails (get >>= f) s e t ↔ Fails (f s) s e t := by
  rw [fails_bind_iff]
  constructor
  · rintro (h | ⟨_, _, hget, h⟩)
    · exact absurd h not_fails_get
    · obtain ⟨rfl, rfl⟩ := ends_get_iff.mp hget
      exact h
  · intro h
    exact .inr ⟨s, s, ends_get_iff.mpr ⟨rfl, rfl⟩, h⟩

/-- A loop fails at one of its turns. -/
theorem exists_of_fails_forIn {as : List α} {b : β} {f : α → β → ExceptT ε (StateM σ) (ForInStep β)}
    (h : Fails (forIn as b f) s e t) : ∃ a ∈ as, ∃ b' r, Fails (f a b') r e t := by
  induction as generalizing b s with
  | nil => exact absurd h not_fails_pure
  | cons a as ih =>
    rw [List.forIn_cons] at h
    obtain hturn | ⟨step, r, -, hrest⟩ := fails_bind_iff.mp h
    · exact ⟨a, List.mem_cons_self, b, s, hturn⟩
    · cases step with
      | done b' => exact absurd hrest not_fails_pure
      | yield b' =>
        obtain ⟨a', ha', hturn⟩ := ih hrest
        exact ⟨a', List.mem_cons_of_mem a ha', hturn⟩

/-- A check of the error and of the state that is left tells that there are such. -/
theorem exists_fails_of_check {x : ExceptT ε (StateM σ) α} {q : ε → σ → Bool}
    (h : (match x.run.run s with
      | (.error e, t) => q e t
      | (.ok _, _) => false) = true) : ∃ e t, Fails x s e t ∧ q e t = true := by
  unfold Fails
  rcases hx : x.run.run s with ⟨result, r⟩
  rw [hx] at h
  cases result with
  | ok a => exact absurd h nofun
  | error e => exact ⟨e, r, rfl, h⟩

end Fails

/-- The state that a computation leaves when it succeeds. -/
def leaves (x : ExceptT ε (StateM σ) α) (s : σ) : Except ε σ :=
  match x.run.run s with
  | (.ok _, t) => .ok t
  | (.error e, _) => .error e

theorem leaves_eq_ok_iff {x : ExceptT ε (StateM σ) α} {s t : σ} :
    leaves x s = .ok t ↔ ∃ a, Ends x s a t := by
  unfold leaves Ends
  rcases hx : x.run.run s with ⟨result, r⟩
  cases result with
  | ok a =>
    constructor
    · intro h
      obtain rfl := Except.ok.inj h
      exact ⟨a, rfl⟩
    · rintro ⟨a', h⟩
      exact congrArg Except.ok (Prod.mk.inj h).2
  | error e =>
    constructor
    · intro h
      exact absurd h nofun
    · rintro ⟨a', h⟩
      exact absurd (congrArg Prod.fst h) nofun

end Rollout
