import Mathlib.Data.List.Infix
import Rollout.Override
import Rollout.Proofs.Success
import Rollout.Proofs.Text
import Rollout.Proofs.Value.Path

/-!
# What overrides write

Overrides are applied one after the other. They all apply if each of them has an equals sign and
no empty key before the first one; otherwise the first of them that is faulty is reported. What an
override writes is read at its path, unless a later one writes at a path that leads there or
further, and nothing is read that none of them has written.
-/

namespace Rollout

open Value

namespace Override

variable {argument path raw : String} {arguments before : List String} {v w x : Value}
  {q : List String} {e : OverrideError}

/-! ### Arguments -/

/-- What stands before and after the first equals sign of an argument. -/
def Splits (argument path raw : String) : Prop :=
  argument.toList = path.toList ++ '=' :: raw.toList ∧ '=' ∉ path.toList

/-- An argument with an equals sign and no empty key before the first one. -/
def WellFormed (argument : String) : Prop :=
  ∃ path raw, Splits argument path raw ∧ "" ∉ pathKeys path

/-- What is wrong with an argument. -/
inductive Faulty (argument : String) : OverrideError → Prop where
  | noValue (h : '=' ∉ argument.toList) : Faulty argument (.noValue argument)
  | emptySegment {path raw : String} (h : Splits argument path raw) (hkey : "" ∈ pathKeys path) :
    Faulty argument (.emptySegment path)

theorem cutAt_eq_some_iff_splits :
    Text.cutAt '=' argument = some (path, raw) ↔ Splits argument path raw :=
  Text.cutAt_eq_some_iff

theorem Splits.unique {path' raw' : String} (h : Splits argument path raw)
    (h' : Splits argument path' raw') : path = path' ∧ raw = raw' := by
  rw [← cutAt_eq_some_iff_splits] at h h'
  exact Prod.mk.inj (Option.some.inj (h.symm.trans h'))

/-- An argument has a fault if and only if it is not well-formed. -/
theorem exists_faulty_iff : (∃ e, Faulty argument e) ↔ ¬ WellFormed argument := by
  constructor
  · rintro ⟨e, hfault⟩ ⟨path, raw, hsplits, hkeys⟩
    cases hfault with
    | noValue h => exact h (hsplits.1 ▸ List.mem_append_right _ List.mem_cons_self)
    | emptySegment h hkey =>
      obtain ⟨rfl, -⟩ := h.unique hsplits
      exact hkeys hkey
  · intro hnot
    cases hcut : Text.cutAt '=' argument with
    | none => exact ⟨_, .noValue (Text.cutAt_eq_none_iff.mp hcut)⟩
    | some cut =>
      have hsplits := cutAt_eq_some_iff_splits.mp hcut
      exact ⟨_, .emptySegment hsplits
        (Decidable.not_not.mp fun hkeys => hnot ⟨_, _, hsplits, hkeys⟩)⟩

/-! ### One override -/

theorem set_eq_ok_iff :
    set v path x = .ok w ↔ "" ∉ pathKeys path ∧ v.putAt (pathKeys path) x = w := by
  rw [set, ← set?_eq_some_iff]
  cases v.set? path x <;> simp

/-- Writing at a path fails for nothing else than an empty key. -/
theorem set_eq_error_iff :
    set v path x = .error e ↔ "" ∈ pathKeys path ∧ e = .emptySegment path := by
  by_cases hkeys : "" ∈ pathKeys path
  · have hnone : v.set? path x = none := by
      rw [Option.eq_none_iff_forall_ne_some]
      exact fun w hw => (set?_eq_some_iff.mp hw).1 hkeys
    rw [set, hnone, and_iff_right hkeys, Except.error.injEq]
    exact eq_comm
  · have hset := set_eq_ok_iff.mpr ⟨hkeys, (rfl : v.putAt (pathKeys path) x = _)⟩
    simp [hset, hkeys]

/-- The value at hand after a write, which is the one before it if the path is refused. -/
def after (v : Value) (path : String) (new : Value) : Value := (set v path new).toOption.getD v

/-- A path with an empty key is refused, and nothing is written. At any other path the new value is
read afterwards, whatever had to give way to a mapping on the way there, and each path that leads
elsewhere is read as before. -/
theorem get?_after (v new : Value) (path : String) :
    ("" ∈ pathKeys path →
      set v path new = .error (.emptySegment path) ∧ after v path new = v) ∧
    ("" ∉ pathKeys path →
      set v path new = .ok (after v path new) ∧ (after v path new).get? path = some new ∧
      ∀ other, Apart (pathKeys path) (pathKeys other) →
        (after v path new).get? other = v.get? other) := by
  constructor
  · intro hkey
    have hset : set v path new = .error (.emptySegment path) := set_eq_error_iff.mpr ⟨hkey, rfl⟩
    refine ⟨hset, ?_⟩
    rw [after, hset]
    rfl
  · intro hkeys
    have hset : set v path new = .ok (v.putAt (pathKeys path) new) :=
      set_eq_ok_iff.mpr ⟨hkeys, rfl⟩
    have hafter : after v path new = v.putAt (pathKeys path) new := by
      rw [after, hset]
      rfl
    rw [hafter]
    refine ⟨hset, at?_putAt_self _ _ _, fun other hother => ?_⟩
    exact at?_putAt_of_apart hother v new

/-- The text of an image gives way to a mapping with a tag, and the number of copies stays; two
dots in a row are refused. -/
theorem get?_after_image :
    let v := Value.mapping [("image", .text "nginx"), ("copies", .int 2)]
    "" ∉ pathKeys "image.tag" ∧ Apart (pathKeys "image.tag") (pathKeys "copies") ∧
      (after v "image.tag" (.text "1.25")).get? "image.tag" = some (.text "1.25") ∧
      (after v "image.tag" (.text "1.25")).get? "copies" = v.get? "copies" ∧
      "" ∈ pathKeys "image..tag" ∧ after v "image..tag" (.text "1.25") = v := by
  intro v
  have hkeys : "" ∉ pathKeys "image.tag" := by decide
  have hapart : Apart (pathKeys "image.tag") (pathKeys "copies") := by decide
  have hempty : "" ∈ pathKeys "image..tag" := by decide
  obtain ⟨-, hread, hframe⟩ := (get?_after v (.text "1.25") "image.tag").2 hkeys
  exact ⟨hkeys, hapart, hread, hframe _ hapart, hempty,
    ((get?_after v (.text "1.25") "image..tag").1 hempty).2⟩

theorem apply_eq_ok_iff :
    apply v argument = .ok w ↔ ∃ path raw, Splits argument path raw ∧ "" ∉ pathKeys path ∧
      v.putAt (pathKeys path) (scalar raw) = w := by
  simp only [← cutAt_eq_some_iff_splits, ← set_eq_ok_iff]
  rw [apply]
  cases Text.cutAt '=' argument with
  | none => simp
  | some cut =>
    obtain ⟨path, raw⟩ := cut
    simp

theorem apply_eq_error_iff : apply v argument = .error e ↔ Faulty argument e := by
  constructor
  · intro h
    rw [apply] at h
    cases hcut : Text.cutAt '=' argument with
    | none =>
      rw [hcut] at h
      exact Except.error.inj h ▸ .noValue (Text.cutAt_eq_none_iff.mp hcut)
    | some cut =>
      rw [hcut] at h
      obtain ⟨hkey, rfl⟩ := set_eq_error_iff.mp h
      exact .emptySegment (cutAt_eq_some_iff_splits.mp hcut) hkey
  · rintro (h | ⟨h, hkey⟩)
    · rw [apply, Text.cutAt_eq_none_iff.mpr h]
    · rw [apply, cutAt_eq_some_iff_splits.mpr h]
      exact set_eq_error_iff.mpr ⟨hkey, rfl⟩

/-- What is written at another path stays, and nothing else is read at the path or further inside
than what is written. -/
theorem at?_of_apply (h : apply v argument = .ok w) (hq : w.at? q = some x) :
    v.at? q = some x ∨ ∃ path raw, Splits argument path raw ∧
      (q <+: pathKeys path ∨
        ∃ rest, rest ≠ [] ∧ q = pathKeys path ++ rest ∧ (scalar raw).at? rest = some x) := by
  obtain ⟨path, raw, hsplits, -, rfl⟩ := apply_eq_ok_iff.mp h
  by_cases hbefore : q <+: pathKeys path
  · exact .inr ⟨path, raw, hsplits, .inl hbefore⟩
  by_cases hafter : pathKeys path <+: q
  · obtain ⟨rest, rfl⟩ := hafter
    have hrest : rest ≠ [] := by
      rintro rfl
      exact hbefore (by rw [List.append_nil])
    rw [at?_append, at?_putAt_self, Option.bind_some] at hq
    exact .inr ⟨path, raw, hsplits, .inr ⟨rest, hrest, rfl, hq⟩⟩
  · rw [at?_putAt_of_apart ⟨hafter, hbefore⟩] at hq
    exact .inl hq

/-! ### One after the other -/

theorem exists_foldlM_iff :
    (∃ w, arguments.foldlM apply v = .ok w) ↔ ∀ a ∈ arguments, WellFormed a := by
  induction arguments generalizing v with
  | nil => exact iff_of_true ⟨v, rfl⟩ nofun
  | cons a arguments ih =>
    simp only [List.foldlM_cons, bind_eq_ok_iff, List.forall_mem_cons, apply_eq_ok_iff]
    constructor
    · rintro ⟨w, u, ⟨path, raw, hsplits, hkeys, -⟩, hrest⟩
      exact ⟨⟨path, raw, hsplits, hkeys⟩, ih.mp ⟨w, hrest⟩⟩
    · rintro ⟨⟨path, raw, hsplits, hkeys⟩, hall⟩
      obtain ⟨w, hrest⟩ := ih.mpr hall
      exact ⟨w, _, ⟨path, raw, hsplits, hkeys, rfl⟩, hrest⟩

/-- The first faulty argument is reported. -/
theorem foldlM_eq_error_iff :
    arguments.foldlM apply v = .error e ↔ ∃ before a after,
      arguments = before ++ a :: after ∧ (∀ b ∈ before, WellFormed b) ∧ Faulty a e := by
  induction arguments generalizing v with
  | nil => exact iff_of_false nofun (by simp)
  | cons a arguments ih =>
    rw [List.foldlM_cons, bind_eq_error_iff, apply_eq_error_iff]
    constructor
    · rintro (hfault | ⟨u, hstep, hrest⟩)
      · exact ⟨[], a, arguments, rfl, nofun, hfault⟩
      · obtain ⟨path, raw, hsplits, hkeys, -⟩ := apply_eq_ok_iff.mp hstep
        obtain ⟨before, b, after, rfl, hall, hfault⟩ := ih.mp hrest
        exact ⟨a :: before, b, after, rfl,
          List.forall_mem_cons.mpr ⟨⟨path, raw, hsplits, hkeys⟩, hall⟩, hfault⟩
    · rintro ⟨before, b, after, heq, hall, hfault⟩
      cases before with
      | nil =>
        obtain ⟨rfl, rfl⟩ := List.cons.inj heq
        exact .inl hfault
      | cons c before =>
        obtain ⟨rfl, rfl⟩ := List.cons.inj heq
        obtain ⟨⟨path, raw, hsplits, hkeys⟩, hbefore⟩ := List.forall_mem_cons.mp hall
        exact .inr ⟨_, apply_eq_ok_iff.mpr ⟨path, raw, hsplits, hkeys, rfl⟩,
          ih.mpr ⟨before, b, after, rfl, hbefore, hfault⟩⟩

theorem at?_foldlM_of_apart (h : arguments.foldlM apply v = .ok w)
    (hq : ∀ a ∈ arguments, ∀ path raw, Splits a path raw → Apart (pathKeys path) q) :
    w.at? q = v.at? q := by
  induction arguments generalizing v with
  | nil =>
    obtain rfl := Except.ok.inj h
    rfl
  | cons a arguments ih =>
    rw [List.foldlM_cons, bind_eq_ok_iff] at h
    obtain ⟨u, hstep, hrest⟩ := h
    obtain ⟨ha, hall⟩ := List.forall_mem_cons.mp hq
    obtain ⟨path, raw, hsplits, -, rfl⟩ := apply_eq_ok_iff.mp hstep
    rw [ih hrest hall, at?_putAt_of_apart (ha path raw hsplits)]

/-- What is read in the end was there before, or an argument has written it. -/
theorem at?_of_foldlM (h : arguments.foldlM apply v = .ok w) (hq : w.at? q = some x) :
    v.at? q = some x ∨ ∃ a ∈ arguments, ∃ path raw, Splits a path raw ∧
      (q <+: pathKeys path ∨
        ∃ rest, rest ≠ [] ∧ q = pathKeys path ++ rest ∧ (scalar raw).at? rest = some x) := by
  induction arguments generalizing v with
  | nil =>
    obtain rfl := Except.ok.inj h
    exact .inl hq
  | cons a arguments ih =>
    rw [List.foldlM_cons, bind_eq_ok_iff] at h
    obtain ⟨u, hstep, hrest⟩ := h
    obtain hu | ⟨b, hb, hwritten⟩ := ih hrest
    · exact (at?_of_apply hstep hu).imp_right fun hwritten => ⟨a, List.mem_cons_self, hwritten⟩
    · exact .inr ⟨b, List.mem_cons_of_mem a hb, hwritten⟩

/-! ### Inline mappings -/

theorem isMapping_of_number? (h : number? raw = some x) : x.isMapping = false := by
  have hdouble (h : (Double.read? raw.toList).map Value.double = some x) : x.isMapping = false := by
    obtain ⟨d, -, rfl⟩ := Option.map_eq_some_iff.mp h
    rfl
  rw [number?] at h
  split at h
  next n _ =>
    split at h
    · obtain rfl := Option.some.inj h
      rfl
    · exact hdouble h
  next => exact hdouble h

/-- A mapping among the values of arguments is written in JSON. -/
theorem parse?_of_isMapping (h : (scalar raw).isMapping = true) :
    opensCollection raw = true ∧ Json.parse? raw = some (scalar raw) := by
  unfold scalar at h ⊢
  split at h
  case h_1 | h_2 | h_3 => exact Bool.noConfusion h
  case h_4 =>
    cases hnumber : number? raw with
    | some n =>
      rw [hnumber] at h
      exact absurd h (by simp [isMapping_of_number? hnumber])
    | none =>
      rw [hnumber] at h
      dsimp only at h ⊢
      by_cases hopens : opensCollection raw = true
      · rw [if_pos hopens] at h ⊢
        cases hparse : Json.parse? raw with
        | none =>
          rw [hparse] at h
          exact Bool.noConfusion h
        | some inline => exact ⟨hopens, rfl⟩
      · rw [if_neg hopens] at h
        exact Bool.noConfusion h

/-- Only mappings have something inside. -/
theorem isMapping_of_at? (hq : q ≠ []) (h : v.at? q = some x) : v.isMapping = true := by
  cases q with
  | nil => exact absurd rfl hq
  | cons key q =>
    cases v with
    | mapping entries => rfl
    | _ => exact absurd h nofun

/-! ### All overrides -/

theorem pathKeys_ne_nil (path : String) : pathKeys path ≠ [] := by
  rw [pathKeys, Text.parts]
  exact fun h => Text.partsOf_ne_nil _ _ (List.map_eq_nil_iff.mp h)

/-- What an override writes stays where no later one comes near it. -/
theorem get?_of_foldlM {after : List String}
    (h : (before ++ argument :: after).foldlM apply v = .ok w) (hsplits : Splits argument path raw)
    (hlater : ∀ b ∈ after, ∀ later rest, Splits b later rest →
      Apart (pathKeys later) (pathKeys path)) :
    w.get? path = some (scalar raw) := by
  rw [List.foldlM_append, bind_eq_ok_iff] at h
  obtain ⟨u, -, hafter⟩ := h
  rw [List.foldlM_cons, bind_eq_ok_iff] at hafter
  obtain ⟨u', hstep, hrest⟩ := hafter
  obtain ⟨path', raw', hsplits', -, rfl⟩ := apply_eq_ok_iff.mp hstep
  obtain ⟨rfl, rfl⟩ := hsplits.unique hsplits'
  rw [get?, at?_foldlM_of_apart hrest hlater]
  exact at?_putAt_self _ _ _

/-- A list of overrides gives values if and only if all of them are well-formed, and otherwise the
first faulty one is reported. What an override writes is read in the end if no later path is its
own, leads there or goes on from there. Nothing is read but at the path of an override, on the way
to it, or inside of a mapping that is written in JSON. -/
theorem values_written (arguments : List String) :
    ((∃ v, values arguments = .ok v) ↔ ∀ a ∈ arguments, WellFormed a) ∧
      (∀ e, values arguments = .error e ↔ ∃ before a after,
        arguments = before ++ a :: after ∧ (∀ b ∈ before, WellFormed b) ∧ Faulty a e) ∧
      ∀ v, values arguments = .ok v →
        (∀ before a after, arguments = before ++ a :: after → ∀ path raw, Splits a path raw →
          (∀ b ∈ after, ∀ later rest, Splits b later rest →
            Apart (pathKeys later) (pathKeys path)) →
          v.get? path = some (scalar raw)) ∧
        ∀ p x, v.get? p = some x → ∃ a ∈ arguments, ∃ path raw, Splits a path raw ∧
          (pathKeys p <+: pathKeys path ∨ ∃ rest inline, rest ≠ [] ∧
            pathKeys p = pathKeys path ++ rest ∧ opensCollection raw = true ∧
            Json.parse? raw = some inline ∧ inline.at? rest = some x) := by
  refine ⟨exists_foldlM_iff, fun e => foldlM_eq_error_iff, fun v hv => ⟨?_, fun p x hx => ?_⟩⟩
  · rintro before a after rfl path raw hsplits hlater
    exact get?_of_foldlM hv hsplits hlater
  · obtain hempty | ⟨a, ha, path, raw, hsplits, hwritten⟩ := at?_of_foldlM hv hx
    · rw [at?_empty (pathKeys_ne_nil p)] at hempty
      exact absurd hempty nofun
    · refine ⟨a, ha, path, raw, hsplits, hwritten.imp_right ?_⟩
      rintro ⟨rest, hrest, hp, hinside⟩
      obtain ⟨hopens, hparse⟩ := parse?_of_isMapping (isMapping_of_at? hrest hinside)
      exact ⟨rest, scalar raw, hrest, hp, hopens, hparse, hinside⟩

/-- A mapping in JSON whose port is changed afterwards, and a tag that stays. -/
theorem values_written_service :
    let arguments := ["image.tag=stable", "service=\x7b\"port\":80,\"type\":\"NodePort\"\x7d",
      "service.port=8080"]
    (∀ a ∈ arguments, WellFormed a) ∧ ∃ v, values arguments = .ok v ∧
      v.get? "image.tag" = some (.text "stable") ∧ v.get? "service.port" = some (.int 8080) := by
  intro arguments
  have htag : Splits "image.tag=stable" "image.tag" "stable" := ⟨by decide, by decide⟩
  have hservice : Splits "service=\x7b\"port\":80,\"type\":\"NodePort\"\x7d" "service"
      "\x7b\"port\":80,\"type\":\"NodePort\"\x7d" := ⟨by decide, by decide⟩
  have hport : Splits "service.port=8080" "service.port" "8080" := ⟨by decide, by decide⟩
  have hwell : ∀ a ∈ arguments, WellFormed a := List.forall_mem_cons.mpr
    ⟨⟨_, _, htag, by decide⟩, List.forall_mem_cons.mpr
      ⟨⟨_, _, hservice, by decide⟩, List.forall_mem_singleton.mpr ⟨_, _, hport, by decide⟩⟩⟩
  obtain ⟨hok, -, hwritten⟩ := values_written arguments
  obtain ⟨v, hv⟩ := hok.mpr hwell
  obtain ⟨hread, -⟩ := hwritten v hv
  have hstable : scalar "stable" = .text "stable" := by decide
  have hnumber : scalar "8080" = .int 8080 := by decide
  refine ⟨hwell, v, hv, ?_, ?_⟩
  · rw [← hstable]
    refine hread [] _ _ rfl _ _ htag
      (List.forall_mem_cons.mpr ⟨?_, List.forall_mem_singleton.mpr ?_⟩)
    · rintro later rest hsplits
      obtain ⟨rfl, -⟩ := hservice.unique hsplits
      decide
    · rintro later rest hsplits
      obtain ⟨rfl, -⟩ := hport.unique hsplits
      decide
  · rw [← hnumber]
    exact hread (arguments.take 2) _ [] rfl _ _ hport nofun

end Override

end Rollout
