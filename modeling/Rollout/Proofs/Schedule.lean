import Rollout.App.Stateful
import Rollout.Proofs.Assoc
import Rollout.Proofs.Decimal.Digits
import Rollout.Proofs.Record.Reference
import Rollout.Proofs.Success
import Rollout.Proofs.Text.Word

/-!
# Schedules

A text says when to run if it is the name of a schedule or has five fields of the characters
that are allowed, whatever blanks stand around and between them. It is then rewritten as its
five fields with single spaces between them, and such a text stays as it is. A CronJob carries
the rewritten schedule, and its own one without the blanks at the ends if that says nothing;
so what it carries says when to run exactly if no problem with the schedule is reported.
-/

namespace Rollout

namespace Schedule

variable {s s' t : String} {fields : List (List Char)}

/-- Fields with single spaces between them. -/
def joined (fields : List (List Char)) : String := String.ofList ([' '].intercalate fields)

/-- The text, once trimmed, is the name of the schedule that is written out as `t`. -/
def IsNamed (s t : String) : Prop := (Text.trim s, t) ∈ named

/-- The text is cut by its blanks into five fields of allowed characters. -/
structure HasFields (s : String) (fields : List (List Char)) : Prop where
  spaced : Text.Spaced fields s.toList
  five : fields.length = 5
  allowed : ∀ f ∈ fields, isField f = true

/-- The text says when to run. -/
def IsSchedule (s : String) : Prop := (∃ t, IsNamed s t) ∨ ∃ fields, HasFields s fields

/-- Two texts differ at most in the blanks around and between their words. -/
def Respaced (s s' : String) : Prop := ∃ ws, Text.Spaced ws s.toList ∧ Text.Spaced ws s'.toList

/-! ### Fields -/

theorem toNat_of_isFieldChar {c : Char} (h : isFieldChar c = true) :
    0x20 < c.toNat ∧ c.toNat < 0x80 := by
  simp only [isFieldChar, Char.isAlphanum, Bool.or_eq_true, Text.isAlpha_iff, Text.isUpper_iff,
    Text.isLower_iff, List.contains_iff_mem] at h
  obtain ((hupper | hlower) | hdigit) | hsign := h
  · omega
  · omega
  · obtain ⟨hlow, hhigh⟩ := toNat_of_isDigit hdigit
    omega
  · have hsigns : ("*/,?-#".toList.all fun c => 0x20 < c.toNat && c.toNat < 0x80) = true := by
      decide
    simpa using List.all_eq_true.mp hsigns c hsign

theorem isWord_of_isField {f : List Char} (h : isField f = true) : Text.IsWord f := by
  rw [isField, Bool.and_eq_true, Bool.not_eq_true', List.isEmpty_eq_false_iff,
    List.all_eq_true] at h
  obtain ⟨hne, hall⟩ := h
  refine ⟨hne, fun c hc => ?_⟩
  obtain ⟨hlow, hhigh⟩ := toNat_of_isFieldChar (hall c hc)
  exact Text.not_isBlank_of_toNat hlow (.inl hhigh)

theorem spaced_intercalate {ws : List (List Char)} (h : ∀ w ∈ ws, Text.IsWord w) :
    Text.Spaced ws ([' '].intercalate ws) := by
  induction ws with
  | nil => exact .nil
  | cons w ws ih =>
    obtain ⟨hw, hws⟩ := List.forall_mem_cons.mp h
    cases ws with
    | nil => simpa using Text.Spaced.last hw
    | cons v ws =>
      rw [List.intercalate_cons_cons, List.append_assoc, List.singleton_append]
      exact .word hw rfl (ih hws)

/-- Five fields that are joined are cut again into the same ones. -/
theorem hasFields_joined (hfive : fields.length = 5) (hall : ∀ f ∈ fields, isField f = true) :
    HasFields (joined fields) fields := by
  refine ⟨?_, hfive, hall⟩
  rw [joined, String.toList_ofList]
  exact spaced_intercalate fun f hf => isWord_of_isField (hall f hf)

/-! ### Names of schedules -/

theorem isWord_of_mem_named {p : String × String} (h : p ∈ named) : Text.IsWord p.1.toList := by
  have hnames : ∀ p ∈ named, p.1.toList ≠ [] ∧ p.1.toList.any Text.isBlank = false := by
    decide
  obtain ⟨hne, hblank⟩ := hnames p h
  exact ⟨hne, fun c hc => Bool.eq_false_iff.mpr (List.any_eq_false.mp hblank c hc)⟩

/-- What a name stands for is written as five fields with single spaces. -/
theorem fields_of_mem_named {p : String × String} (h : p ∈ named) :
    (Text.wordsOf p.2.toList).length = 5 ∧ (∀ f ∈ Text.wordsOf p.2.toList, isField f = true) ∧
      p.2 = joined (Text.wordsOf p.2.toList) := by
  have hnames : ∀ p ∈ named, (Text.wordsOf p.2.toList).length = 5 ∧
      (∀ f ∈ Text.wordsOf p.2.toList, isField f = true) ∧
        p.2 = joined (Text.wordsOf p.2.toList) := by
    decide
  exact hnames p h

theorem isNamed_iff : IsNamed s t ↔ named.lookup (Text.trim s) = some t := by
  have hnodup : Assoc.keys named |>.Nodup := by decide
  exact ⟨Assoc.get?_of_mem hnodup, Assoc.mem_of_get?⟩

theorem IsNamed.spaced (h : IsNamed s t) : Text.Spaced [(Text.trim s).toList] s.toList := by
  refine (Text.trimmed_eq_iff (isWord_of_mem_named h)).mp ?_
  rw [Text.trim, String.toList_ofList]

theorem IsNamed.not_hasFields (h : IsNamed s t) : ¬ HasFields s fields := by
  intro hfields
  have hone := (Text.spaced_iff.mp h.spaced).symm.trans (Text.spaced_iff.mp hfields.spaced)
  have hfive := hfields.five
  rw [← hone] at hfive
  exact absurd hfive nofun

/-! ### Rewriting -/

theorem wordsOf_trim (s : String) : Text.wordsOf (Text.trim s).toList = Text.wordsOf s.toList := by
  rw [Text.trim, String.toList_ofList, Text.wordsOf_trimmed]

theorem hasFields_iff : HasFields s fields ↔
    Text.wordsOf s.toList = fields ∧ fields.length = 5 ∧ ∀ f ∈ fields, isField f = true :=
  ⟨fun h => ⟨Text.spaced_iff.mp h.spaced, h.five, h.allowed⟩,
    fun ⟨hspaced, hfive, hall⟩ => ⟨Text.spaced_iff.mpr hspaced, hfive, hall⟩⟩

theorem normalize?_of_isNamed (h : IsNamed s t) : normalize? s = some t := by
  obtain ⟨hfive, hall, hjoined⟩ := fields_of_mem_named h
  have hwritten : (named.lookup (Text.trim s)).getD (Text.trim s) = t := by
    rw [isNamed_iff.mp h, Option.getD_some]
  rw [normalize?, hwritten]
  exact (if_pos ⟨hfive, List.all_eq_true.mpr hall⟩).trans (congrArg some hjoined.symm)

theorem normalize?_of_not_isNamed (h : ∀ t, ¬ IsNamed s t) : normalize? s =
    if (Text.wordsOf s.toList).length = 5 ∧ (Text.wordsOf s.toList).all isField = true then
      some (joined (Text.wordsOf s.toList))
    else none := by
  have hnone : named.lookup (Text.trim s) = none :=
    Option.eq_none_iff_forall_ne_some.mpr fun t ht => h t (isNamed_iff.mpr ht)
  rw [normalize?, hnone, Option.getD_none, wordsOf_trim]
  rfl

/-- A text is rewritten exactly if it says when to run. -/
theorem normalize?_eq_some_iff :
    normalize? s = some t ↔ IsNamed s t ∨ ∃ fields, HasFields s fields ∧ t = joined fields := by
  by_cases hnamed : ∃ u, IsNamed s u
  · obtain ⟨u, hu⟩ := hnamed
    have hnone : ¬ ∃ fields, HasFields s fields ∧ t = joined fields := by
      rintro ⟨fields, hfields, -⟩
      exact hu.not_hasFields hfields
    rw [normalize?_of_isNamed hu, or_iff_left hnone, isNamed_iff, isNamed_iff.mp hu]
  · have hnone := not_exists.mp hnamed
    rw [normalize?_of_not_isNamed hnone, or_iff_right (hnone t)]
    constructor
    · intro h
      split at h
      · rename_i hfields
        exact ⟨_, hasFields_iff.mpr ⟨rfl, hfields.1, List.all_eq_true.mp hfields.2⟩,
          (Option.some.inj h).symm⟩
      · exact absurd h nofun
    · rintro ⟨fields, hfields, rfl⟩
      obtain ⟨rfl, hfive, hall⟩ := hasFields_iff.mp hfields
      exact if_pos ⟨hfive, List.all_eq_true.mpr hall⟩

theorem isSome_normalize?_iff : (normalize? s).isSome = true ↔ IsSchedule s := by
  rw [Option.isSome_iff_exists]
  simp only [normalize?_eq_some_iff, IsSchedule, exists_or]
  refine or_congr_right ⟨?_, ?_⟩
  · rintro ⟨t, fields, hfields, -⟩
    exact ⟨fields, hfields⟩
  · rintro ⟨fields, hfields⟩
    exact ⟨joined fields, fields, hfields, rfl⟩

/-- What a text is rewritten to has five fields with single spaces. -/
theorem exists_fields_of_normalize? (h : normalize? s = some t) :
    ∃ fields, HasFields t fields ∧ t = joined fields := by
  obtain hnamed | ⟨fields, hfields, rfl⟩ := normalize?_eq_some_iff.mp h
  · obtain ⟨hfive, hall, hjoined⟩ := fields_of_mem_named hnamed
    exact ⟨_, hasFields_iff.mpr ⟨rfl, hfive, hall⟩, hjoined⟩
  · exact ⟨fields, hasFields_joined hfields.five hfields.allowed, rfl⟩

theorem Respaced.symm (h : Respaced s s') : Respaced s' s := by
  obtain ⟨ws, hs, hs'⟩ := h
  exact ⟨ws, hs', hs⟩

theorem Respaced.wordsOf_eq (h : Respaced s s') :
    Text.wordsOf s.toList = Text.wordsOf s'.toList := by
  obtain ⟨ws, hs, hs'⟩ := h
  rw [Text.spaced_iff.mp hs, Text.spaced_iff.mp hs']

theorem respaced_trim (s : String) : Respaced s (Text.trim s) :=
  ⟨Text.wordsOf s.toList, Text.spaced_iff.mpr rfl, Text.spaced_iff.mpr (wordsOf_trim s)⟩

theorem Respaced.isNamed (h : Respaced s s') (hs : IsNamed s t) : IsNamed s' t := by
  have hword : Text.Spaced [(Text.trim s).toList] s'.toList := by
    rw [Text.spaced_iff, ← h.wordsOf_eq]
    exact Text.spaced_iff.mp hs.spaced
  rw [← Text.trimmed_eq_iff (isWord_of_mem_named hs)] at hword
  have htrim : Text.trim s' = Text.trim s := by
    rw [Text.trim, hword, String.ofList_toList]
  rw [IsNamed, htrim]
  exact hs

theorem Respaced.hasFields (h : Respaced s s') (hs : HasFields s fields) : HasFields s' fields := by
  rw [hasFields_iff] at hs ⊢
  rw [← h.wordsOf_eq]
  exact hs

theorem Respaced.isSchedule (h : Respaced s s') (hs : IsSchedule s) : IsSchedule s' :=
  hs.imp (fun ⟨t, ht⟩ => ⟨t, h.isNamed ht⟩) fun ⟨fields, hfields⟩ => ⟨fields, h.hasFields hfields⟩

theorem Respaced.normalize?_eq (h : Respaced s s') : normalize? s' = normalize? s := by
  refine Option.ext fun t => ?_
  rw [normalize?_eq_some_iff, normalize?_eq_some_iff]
  refine or_congr ⟨h.symm.isNamed, h.isNamed⟩ (exists_congr fun fields => and_congr_left' ?_)
  exact ⟨h.symm.hasFields, h.hasFields⟩

/-- A text that has been rewritten stays as it is. -/
theorem normalize?_of_normalize? (h : normalize? s = some t) :
    normalize? t = some t :=
  normalize?_eq_some_iff.mpr (.inr (exists_fields_of_normalize? h))

/-- What stands where a schedule is carried: what the text is rewritten to, or the text without
the blanks at its ends. It says when to run exactly if the text does. -/
theorem isSchedule_carried_iff (s : String) :
    IsSchedule ((normalize? s).getD (Text.trim s)) ↔ IsSchedule s := by
  cases h : normalize? s with
  | some t =>
    have hs : IsSchedule s := isSome_normalize?_iff.mp (by rw [h]; rfl)
    have ht : IsSchedule t := isSome_normalize?_iff.mp (by rw [normalize?_of_normalize? h]; rfl)
    exact iff_of_true ht hs
  | none => exact ⟨(respaced_trim s).symm.isSchedule, (respaced_trim s).isSchedule⟩

end Schedule

/-! ### Reports -/

namespace Text

/-- Texts with different beginnings are different, whatever follows. -/
theorem append_ne_append {a b : String} (hab : ¬ a.toList <+: b.toList)
    (hba : ¬ b.toList <+: a.toList) (x y : String) : a ++ x ≠ b ++ y := by
  intro h
  have hlists : a.toList ++ x.toList = b.toList ++ y.toList := by
    rw [← String.toList_append, h, String.toList_append]
  have ha : a.toList <+: b.toList ++ y.toList := ⟨x.toList, hlists⟩
  obtain hprefix | hprefix := List.prefix_or_prefix_of_prefix ha (List.prefix_append _ _)
  · exact hab hprefix
  · exact hba hprefix

end Text

/-- What is reported about a name names what has it. -/
theorem Name.exists_of_mem_problems {what name p : String} {max : Nat}
    (h : p ∈ Name.problems what name max) : ∃ rest, p = what ++ (" name " ++ rest) := by
  have hsplit (rest : String) : " name '" ++ rest = " name " ++ ("'" ++ rest) := by
    rw [← String.append_assoc]
    rfl
  unfold Name.problems at h
  split at h
  · rw [List.mem_singleton.mp h]
    exact ⟨"must not be empty", rfl⟩
  · obtain h | h := List.mem_append.mp h
    · split at h
      · rw [List.mem_singleton.mp h]
        change ∃ rest, what ++ " name '" ++ _ ++ _ ++ _ ++ _ ++ _ ++ _ = _
        simp only [String.append_assoc, hsplit]
        exact ⟨_, rfl⟩
      · exact absurd h List.not_mem_nil
    · split at h
      · exact absurd h List.not_mem_nil
      · rw [List.mem_singleton.mp h]
        change ∃ rest, what ++ " name '" ++ _ ++ _ ++ _ = _
        simp only [String.append_assoc, hsplit]
        exact ⟨_, rfl⟩

namespace CronJob

variable {j : CronJob}

/-- What is reported if the schedule says nothing. -/
def invalidSchedule (j : CronJob) : String :=
  s!"CronJob '{j.info.name}' has invalid schedule '{j.schedule}'"

/-- A report that goes on in another way behind the name is another one. -/
theorem ne_invalidSchedule {a : String} (h : ¬ a.toList <+: "' has invalid schedule '".toList)
    (h' : ¬ "' has invalid schedule '".toList <+: a.toList) (rest : String) :
    j.invalidSchedule ≠ "CronJob '" ++ (j.info.name ++ (a ++ rest)) := by
  change "CronJob '" ++ j.info.name ++ "' has invalid schedule '" ++ j.schedule ++ "'" ≠ _
  simp only [String.append_assoc]
  rw [Ne, String.append_right_inj, String.append_right_inj]
  exact Text.append_ne_append h' h _ _

theorem invalidSchedule_notMem_meta : j.invalidSchedule ∉ j.info.problems "CronJob" := by
  intro h
  unfold Meta.problems at h
  obtain h | h := List.mem_append.mp h
  · obtain ⟨rest, hrest⟩ := Name.exists_of_mem_problems h
    change "CronJob" ++ " '" ++ j.info.name ++ _ ++ j.schedule ++ "'" = _ at hrest
    rw [String.append_assoc, String.append_assoc, String.append_assoc, String.append_assoc,
      String.append_right_inj] at hrest
    exact Text.append_ne_append (by decide) (by decide) _ _ hrest
  · split at h
    · exact absurd h List.not_mem_nil
    · have hns := List.mem_singleton.mp h
      change _ = "CronJob '" ++ j.info.name ++ "' has invalid namespace '" ++ j.info.ns ++ "'" at hns
      simp only [String.append_assoc] at hns
      exact ne_invalidSchedule (by decide) (by decide) _ hns

theorem invalidSchedule_notMem_template :
    j.invalidSchedule ∉ j.template.problems "CronJob" j.info.name := by
  intro h
  unfold JobTemplate.problems at h
  obtain h | h := List.mem_append.mp h
  · split at h
    · exact absurd h List.not_mem_nil
    · have himage := List.mem_singleton.mp h
      change _ = "CronJob '" ++ j.info.name ++ "' has no image; " ++ JobTemplate.fallbackImage ++
        " will be used" at himage
      simp only [String.append_assoc] at himage
      exact ne_invalidSchedule (by decide) (by decide) _ himage
  · split at h
    · split at h
      · have hruns := List.mem_singleton.mp h
        change _ = "CronJob '" ++ j.info.name ++ "' runs " ++ _ ++ _ ++ _ ++ _ at hruns
        simp only [String.append_assoc] at hruns
        exact ne_invalidSchedule (by decide) (by decide) _ hruns
      · exact absurd h List.not_mem_nil
    · exact absurd h List.not_mem_nil

/-- The report is made exactly if the schedule says nothing. -/
theorem invalidSchedule_mem_problems_iff :
    j.invalidSchedule ∈ j.problems ↔ ¬ Schedule.IsSchedule j.schedule := by
  have hlength : j.invalidSchedule ∉ (if Text.byteLength j.info.name > maxNameLength then
      [s!"CronJob '{j.info.name}' name exceeds {maxNameLength} characters; " ++
        "generated Job names will be truncated"]
    else []) := by
    intro h
    split at h
    · have hname := List.mem_singleton.mp h
      change _ = "CronJob '" ++ j.info.name ++ "' name exceeds " ++ _ ++ _ ++ _ at hname
      simp only [String.append_assoc] at hname
      exact ne_invalidSchedule (by decide) (by decide) _ hname
    · exact absurd h List.not_mem_nil
  rw [← Schedule.isSome_normalize?_iff]
  unfold problems
  rw [List.mem_append, or_iff_left invalidSchedule_notMem_template, List.mem_append,
    List.mem_append, or_iff_right invalidSchedule_notMem_meta, or_iff_right hlength]
  change _ ∈ (if (Schedule.normalize? j.schedule).isSome then [] else [j.invalidSchedule]) ↔ _
  split <;> simp [*]

/-- The schedule that a record carries. -/
def carriedSchedule? (r : Record) : Option String :=
  ((r.toValue.at "spec").field? "schedule").bind Value.text?

/-- The only record carries a text, and the schedule is reported exactly if that text does not say
when to run. -/
def ReportsCarried (j : CronJob) : Prop :=
  ∃ r u, j.records = [r] ∧ carriedSchedule? r = some u ∧
    (j.invalidSchedule ∈ j.problems ↔ ¬ Schedule.IsSchedule u)

theorem reportsCarried (j : CronJob) : j.ReportsCarried := by
  refine ⟨_, j.normalizedSchedule?.getD (Text.trim j.schedule), rfl, rfl, ?_⟩
  rw [invalidSchedule_mem_problems_iff, normalizedSchedule?, Schedule.isSchedule_carried_iff]

end CronJob

namespace StatefulApp

variable {files : FileTree} {a : StatefulApp} {b : Backup}

/-- The problems of a backup come after all others. -/
theorem problems_of_backup (h : a.backup = some b) : a.problems files =
    StatefulApp.problems files { a with backup := none } ++ (a.backupJob b).problems := by
  simp only [problems, h, Option.map_some, Option.map_none, Option.getD_some, Option.getD_none,
    List.append_nil]
  rfl

theorem records_of_backup (h : a.backup = some b) {rs : List Record}
    (hrs : a.records files = .ok rs) : (a.backupJob b).records ⊆ rs := by
  obtain ⟨notes, -, hrs⟩ := bind_eq_ok_iff.mp hrs
  obtain ⟨config, -, hrs⟩ := bind_eq_ok_iff.mp hrs
  intro r hr
  rw [← Except.ok.inj hrs, h]
  exact List.mem_append_left _ (List.mem_cons_of_mem _ (List.mem_cons_of_mem _ hr))

end StatefulApp

namespace Schedule

/-- A text is rewritten exactly if it is, once trimmed, the name of a schedule or five fields of
allowed characters between blanks, to such fields with single spaces, which are rewritten to
themselves. Blanks around and between words do not matter. And of CronJobs and backups exactly
those are reported whose record carries a text that is not of this form. -/
theorem normalize?_reported (s : String) :
    (∀ t, normalize? s = some t ↔ IsNamed s t ∨ ∃ fields, HasFields s fields ∧ t = joined fields) ∧
      (∀ t, normalize? s = some t →
        (∃ fields, HasFields t fields ∧ t = joined fields) ∧ normalize? t = some t) ∧
      (∀ s', Respaced s s' → normalize? s' = normalize? s) ∧
      (∀ j : CronJob, j.schedule = s → j.ReportsCarried) ∧
      ∀ (a : StatefulApp) (b : Backup) (files : FileTree), a.backup = some b → b.schedule = s →
        a.problems files =
            StatefulApp.problems files { a with backup := none } ++ (a.backupJob b).problems ∧
          (∀ rs, a.records files = .ok rs → (a.backupJob b).records ⊆ rs) ∧
          (a.backupJob b).schedule = s ∧ (a.backupJob b).ReportsCarried := by
  refine ⟨fun t => normalize?_eq_some_iff, fun t h => ?_, fun s' h => h.normalize?_eq,
    fun j _ => j.reportsCarried, fun a b files hb hs => ?_⟩
  · exact ⟨exists_fields_of_normalize? h, normalize?_of_normalize? h⟩
  · exact ⟨StatefulApp.problems_of_backup hb, fun rs hrs => StatefulApp.records_of_backup hb hrs,
      hs, (a.backupJob b).reportsCarried⟩

/-- Blanks around the fields and tabs between them are taken away, and a schedule of words that
are no fields is reported. -/
theorem normalize?_reported_nightly :
    let job := CronJob.named "nightly" "every  day"
    let app : StatefulApp := { StatefulApp.named "db" with
      backup := some { schedule := "@daily ", image := "backup:1" } }
    normalize? " 0\t2 * * 1-5\n" = some "0 2 * * 1-5" ∧
      normalize? "0 2 * * 1-5" = some "0 2 * * 1-5" ∧
      job.invalidSchedule ∈ job.problems ∧ job.ReportsCarried ∧
      (∃ u, IsNamed "@daily " u) ∧ ∀ rs, app.records ⟨[]⟩ = .ok rs →
        (app.backupJob { schedule := "@daily ", image := "backup:1" }).records ⊆ rs := by
  intro job app
  have hfields : HasFields "0 2 * * 1-5" (Text.wordsOf "0 2 * * 1-5".toList) :=
    hasFields_iff.mpr ⟨rfl, by decide, by decide⟩
  have hrespaced : Respaced "0 2 * * 1-5" " 0\t2 * * 1-5\n" :=
    ⟨_, Text.spaced_iff.mpr rfl, Text.spaced_iff.mpr (by decide)⟩
  obtain ⟨hsome, hagain, hblanks, -⟩ := normalize?_reported "0 2 * * 1-5"
  have hnightly : normalize? "0 2 * * 1-5" = some "0 2 * * 1-5" :=
    (hsome _).mpr (.inr ⟨_, hfields, by decide⟩)
  obtain ⟨-, -, -, hjob, -⟩ := normalize?_reported "every  day"
  obtain ⟨-, -, -, -, happ⟩ := normalize?_reported "@daily "
  refine ⟨(hblanks _ hrespaced).trans hnightly, (hagain _ hnightly).2, ?_, hjob job rfl, ?_, ?_⟩
  · decide
  · exact ⟨"0 0 * * *", isNamed_iff.mpr (by decide)⟩
  · exact (happ app _ ⟨[]⟩ rfl rfl).2.1

end Schedule

end Rollout
