import Rollout.Proofs.App.Reference
import Rollout.Proofs.Bytes

/-!
# What a digest of configuration tells

The checksum of a ConfigMap is the digest of its keys and contents with a zero byte after each, and
the checksum on the pods of a workload is the digest of those of its ConfigMaps. The zero bytes are
all that tells a key from a content, and nothing tells a text from other contents. So two sets of
data are told apart just if they differ in what stands between the zero bytes. The checksums have
one length, so nothing is lost when they are put together.
-/

namespace Rollout

section Lists

variable {α β : Type}

/-- What is written for each element in one length, an element can be told from. -/
theorem flatMap_eq_iff_of_length {f : α → List β} (hf : Function.Injective f) {n : Nat}
    (hn : 0 < n) {xs ys : List α} (hxs : ∀ x ∈ xs, (f x).length = n)
    (hys : ∀ y ∈ ys, (f y).length = n) : xs.flatMap f = ys.flatMap f ↔ xs = ys := by
  refine ⟨fun h => ?_, congrArg (List.flatMap f)⟩
  have hempty {zs : List α} {z : α} (hz : (f z).length = n) (h : (z :: zs).flatMap f = []) :
      False := by
    rw [List.flatMap_cons, List.append_eq_nil_iff] at h
    rw [h.1, List.length_nil] at hz
    omega
  induction xs generalizing ys with
  | nil =>
    cases ys with
    | nil => rfl
    | cons y ys => exact (hempty (hys y List.mem_cons_self) h.symm).elim
  | cons x xs ih =>
    cases ys with
    | nil => exact (hempty (hxs x List.mem_cons_self) h).elim
    | cons y ys =>
      rw [List.flatMap_cons, List.flatMap_cons] at h
      have hlength : (f x).length = (f y).length := by
        rw [hxs x List.mem_cons_self, hys y List.mem_cons_self]
      obtain ⟨hhead, htail⟩ := List.append_inj h hlength
      rw [hf hhead, ih (fun x hx => hxs x (List.mem_cons_of_mem _ hx))
        (fun y hy => hys y (List.mem_cons_of_mem _ hy)) htail]

variable [DecidableEq α] {a : α}

/-- Lists that are each closed by one element split at it into what they split into one by one, and
an empty rest. -/
theorem splitOn_closed (a : α) (fields : List (List α)) :
    (fields.flatMap (· ++ [a])).splitOn a = fields.flatMap (List.splitOn a) ++ [[]] := by
  induction fields with
  | nil => rfl
  | cons field fields ih =>
    rw [List.flatMap_cons, List.append_assoc, List.singleton_append,
      List.splitOn_append_cons_self, ih, List.flatMap_cons, List.append_assoc]

theorem closed_eq_iff (a : α) (fields others : List (List α)) :
    fields.flatMap (· ++ [a]) = others.flatMap (· ++ [a]) ↔
      fields.flatMap (List.splitOn a) = others.flatMap (List.splitOn a) := by
  constructor
  · intro h
    have hsplit := congrArg (List.splitOn a) h
    rw [splitOn_closed, splitOn_closed] at hsplit
    exact List.append_cancel_right hsplit
  · intro h
    -- joining the pieces again gives the whole back, so equal pieces come from equal wholes
    have hback (pieces : List (List α)) : [a].intercalate
        ((pieces.flatMap (· ++ [a])).splitOn a) = pieces.flatMap (· ++ [a]) :=
      List.intercalate_splitOn a
    rw [← hback fields, splitOn_closed, h, ← splitOn_closed, hback]

theorem flatMap_splitOn_of_notMem {fields : List (List α)} (h : ∀ field ∈ fields, a ∉ field) :
    fields.flatMap (List.splitOn a) = fields := by
  induction fields with
  | nil => rfl
  | cons field fields ih =>
    have hone : field.splitOn a = [field] :=
      List.splitOn_eq_singleton (h field List.mem_cons_self)
    rw [List.flatMap_cons, hone, ih fun x hx => h x (List.mem_cons_of_mem _ hx),
      List.singleton_append]

end Lists

namespace ResolvedData

variable {d e : ResolvedData}

/-- All entries with the bytes of their contents, first the texts and then the others. -/
def entries (d : ResolvedData) : List (String × Bytes) := d.text.mapValues Bytes.ofText ++ d.binary

/-- The keys and the contents, as they take turns in what is digested. -/
def fields (d : ResolvedData) : List Bytes :=
  d.entries.flatMap fun (key, content) => [Bytes.ofText key, content]

/-- What stands between the zero bytes of what is digested. -/
def pieces (d : ResolvedData) : List Bytes := d.fields.flatMap (List.splitOn 0)

/-- The digest of the data. -/
def digest (d : ResolvedData) : String := Bytes.Sha256.hex (ConfigMap.digestInput d)

/-- Everything that is a text is kept as one. -/
def IsRead (d : ResolvedData) : Prop := ∀ entry ∈ d.binary, Bytes.text? entry.2 = none

/-- Data without zero bytes in which everything that is a text is kept as one. -/
structure IsClear (d : ResolvedData) : Prop where
  nonzero : ∀ field ∈ d.fields, 0 ∉ field
  read : d.IsRead

/-- One entry less, or one content replaced. -/
def IsEditOf (e d : ResolvedData) : Prop :=
  ∃ before after key old, d.entries = before ++ (key, old) :: after ∧
    (e.entries = before ++ after ∨
      ∃ new, new ≠ old ∧ e.entries = before ++ (key, new) :: after)

theorem digestInput_eq_fields (d : ResolvedData) :
    ConfigMap.digestInput d = d.fields.flatMap (· ++ [0]) := by
  simp [ConfigMap.digestInput, ConfigMap.digestEntry, fields, entries, Assoc.mapValues,
    List.flatMap_assoc, List.flatMap_map]

theorem digestInput_eq_iff (d e : ResolvedData) :
    ConfigMap.digestInput d = ConfigMap.digestInput e ↔ d.pieces = e.pieces := by
  rw [digestInput_eq_fields, digestInput_eq_fields, closed_eq_iff, pieces, pieces]

/-- Keys and contents take turns, so they tell the entries. -/
theorem entries_eq_of_fields (h : d.fields = e.fields) : d.entries = e.entries := by
  have hpair : Function.Injective
      (fun entry : String × Bytes => [Bytes.ofText entry.1, entry.2]) := by
    intro x y hxy
    obtain ⟨hkey, hcontent⟩ : Bytes.ofText x.1 = Bytes.ofText y.1 ∧ x.2 = y.2 := by
      simpa using hxy
    exact Prod.ext (Bytes.ofText_injective hkey) hcontent
  exact (flatMap_eq_iff_of_length hpair Nat.two_pos (fun _ _ => rfl) fun _ _ => rfl).mp h

/-- The texts are the entries whose contents are texts. -/
theorem filterMap_entries (h : d.IsClear) :
    (d.entries.filterMap fun entry => (Bytes.text? entry.2).map (entry.1, ·)) = d.text := by
  have hbinary : (d.binary.filterMap fun entry => (Bytes.text? entry.2).map (entry.1, ·)) = [] := by
    rw [List.filterMap_eq_nil_iff]
    intro entry hentry
    rw [h.read entry hentry, Option.map_none]
  rw [entries, List.filterMap_append, hbinary, List.append_nil, Assoc.mapValues,
    List.filterMap_map]
  refine Eq.trans ?_ List.filterMap_some
  refine congrArg (List.filterMap · d.text) (funext fun entry => ?_)
  exact congrArg (Option.map (entry.1, ·)) (Bytes.text?_ofText entry.2)

theorem eq_of_entries (hd : d.IsClear) (he : e.IsClear) (h : d.entries = e.entries) : d = e := by
  have htext : d.text = e.text := by rw [← filterMap_entries hd, h, filterMap_entries he]
  have hbinary : d.binary = e.binary := by
    rw [entries, entries, htext] at h
    exact List.append_cancel_left h
  calc
    d = ⟨d.text, d.binary⟩ := rfl
    _ = e := by rw [htext, hbinary]

/-- What is digested tells clear data apart. -/
theorem IsClear.digestInput_eq_iff (hd : d.IsClear) (he : e.IsClear) :
    ConfigMap.digestInput d = ConfigMap.digestInput e ↔ d = e := by
  rw [ResolvedData.digestInput_eq_iff, pieces, pieces, flatMap_splitOn_of_notMem hd.nonzero,
    flatMap_splitOn_of_notMem he.nonzero]
  exact ⟨fun h => eq_of_entries hd he (entries_eq_of_fields h), congrArg fields⟩

/-- What is digested tells of every single edit. -/
theorem IsEditOf.digestInput_ne (h : e.IsEditOf d) :
    ConfigMap.digestInput e ≠ ConfigMap.digestInput d := by
  obtain ⟨before, after, key, old, hd, he⟩ := h
  rw [digestInput_eq_fields, digestInput_eq_fields, fields, fields, hd]
  obtain he | ⟨new, hne, he⟩ := he <;> rw [he] <;> intro hsame <;>
    simp only [List.flatMap_append, List.flatMap_cons, List.append_cancel_left_eq] at hsame
  · have hlength := congrArg List.length hsame
    simp only [List.length_append, List.length_singleton, List.flatMap_nil] at hlength
    omega
  · refine hne ?_
    simpa using hsame

end ResolvedData

namespace DataSource

variable {files : FileTree} {owner : String} {policy : MissingSources} {d : ResolvedData}

/-- A source whose contents are kept as they are, be they texts or not. -/
def KeepsBytes : DataSource → Prop
  | binary .. | binaryFile .. => True
  | _ => False

/-- A contribution that is a text, or is kept as one if it is one. -/
def Contribution.IsRead : Contribution → Prop
  | binary .. => False
  | _ => True

theorem isRead_of_contributions {s : DataSource} (hs : ¬ s.KeepsBytes) {given : List Contribution}
    (h : s.contributions files owner policy = .ok given) : ∀ c ∈ given, c.IsRead := by
  have hone {c : Contribution} (hc : c.IsRead) : ∀ x ∈ [c], x.IsRead := by
    intro x hx
    obtain rfl := List.mem_singleton.mp hx
    exact hc
  cases s with
  | binary => exact absurd trivial hs
  | binaryFile => exact absurd trivial hs
  | file key path =>
    obtain ⟨content, -, h⟩ := bind_eq_ok_iff.mp h
    cases content <;> obtain rfl := Except.ok.inj h <;> exact hone trivial
  | envFile path =>
    obtain ⟨content, -, h⟩ := bind_eq_ok_iff.mp h
    cases content with
    | none =>
      obtain rfl := Except.ok.inj h
      exact hone trivial
    | some content =>
      obtain rfl := Except.ok.inj h
      exact List.forall_mem_map.mpr fun _ _ => trivial
  | directory path =>
    simp only [contributions] at h
    split at h
    · obtain rfl := Except.ok.inj h
      exact List.forall_mem_map.mpr fun _ _ => trivial
    · split at h
      · exact absurd h nofun
      · obtain rfl := Except.ok.inj h
        exact hone trivial
  | _ =>
    obtain rfl := Except.ok.inj h
    exact hone trivial

/-- Such a contribution leaves everything that is a text kept as one. -/
theorem Contribution.isRead_addTo {c : Contribution} (hc : c.IsRead) (hd : d.IsRead) :
    (c.addTo d).IsRead := by
  have htext (key value : String) : (d.insertText key value).IsRead := by
    intro entry hentry
    exact hd entry (List.mem_filter.mp hentry).1
  cases c with
  | text key value => exact htext key value
  | binary => exact hc.elim
  | content key bytes =>
    change (d.insertContent key bytes).IsRead
    unfold ResolvedData.insertContent
    split
    next text _ => exact htext key text
    next hnone =>
      intro entry hentry
      obtain rfl | hold := Assoc.mem_insertSorted hentry
      · exact hnone
      · exact hd entry hold

theorem isRead_of_resolve {sources : List DataSource} (hsources : ∀ s ∈ sources, ¬ s.KeepsBytes)
    (h : resolve files owner policy sources = .ok d) : d.IsRead := by
  obtain ⟨given, hgiven, h⟩ := bind_eq_ok_iff.mp h
  obtain rfl := Except.ok.inj h
  have hread : ∀ c ∈ given.flatten, c.IsRead := by
    intro c hc
    obtain ⟨own, hown, hc⟩ := List.mem_flatten.mp hc
    obtain ⟨s, hs, hcontributions⟩ := exists_of_mem_mapM hgiven hown
    exact isRead_of_contributions (hsources s hs) hcontributions c hc
  -- every contribution keeps the data read, so a whole run does
  have hrun (cs : List Contribution) (hcs : ∀ c ∈ cs, c.IsRead) (start : ResolvedData)
      (hstart : start.IsRead) : (cs.foldl Contribution.addTo start).IsRead := by
    induction cs generalizing start with
    | nil => exact hstart
    | cons c cs ih =>
      obtain ⟨hc, hcs⟩ := List.forall_mem_cons.mp hcs
      exact ih hcs _ (Contribution.isRead_addTo hc hstart)
  exact hrun given.flatten hread {} fun _ hentry => absurd hentry List.not_mem_nil

end DataSource

/-- The data of a ConfigMap are clear if it holds no zero byte and no source keeps its contents as
they are. -/
theorem ConfigMap.isClear_of_resolve {files : FileTree} {c : ConfigMap} {d : ResolvedData}
    (h : c.resolve files = .ok d) (hsources : ∀ s ∈ c.sources, ¬ s.KeepsBytes)
    (hnonzero : ∀ field ∈ d.fields, 0 ∉ field) : d.IsClear :=
  ⟨hnonzero, DataSource.isRead_of_resolve hsources h⟩

/-- What the pods that a record runs are annotated with under a key. -/
def Record.podNote (r : Record) (key : String) : Value :=
  (((r.spec.at "template").at "metadata").at "annotations").at key

namespace Workload

variable {files tree : FileTree} {w v : Workload} {rs ss : List Record} {ds es : List ResolvedData}

theorem checksums_of_resolve {maps : List ConfigMap}
    (h : maps.mapM (ConfigMap.resolve files) = .ok ds) :
    maps.mapM (ConfigMap.checksum files) = .ok (ds.map ResolvedData.digest) := by
  induction maps generalizing ds with
  | nil =>
    obtain rfl := Except.ok.inj h
    rfl
  | cons c maps ih =>
    obtain ⟨d, rest, hd, hrest, rfl⟩ := mapM_cons_eq_ok_iff.mp h
    refine mapM_cons_eq_ok_iff.mpr ⟨d.digest, _, ?_, ih hrest, rfl⟩
    exact map_eq_ok_iff.mpr ⟨d, hd, rfl⟩

/-- Only what cannot be resolved has no checksum. -/
theorem exists_resolve_of_checksums {maps : List ConfigMap} {sums : List String}
    (h : maps.mapM (ConfigMap.checksum files) = .ok sums) :
    ∃ ds, maps.mapM (ConfigMap.resolve files) = .ok ds := by
  induction maps generalizing sums with
  | nil => exact ⟨[], rfl⟩
  | cons c maps ih =>
    obtain ⟨sum, rest, hsum, hrest, rfl⟩ := mapM_cons_eq_ok_iff.mp h
    obtain ⟨d, hd, -⟩ := map_eq_ok_iff.mp hsum
    obtain ⟨ds, hds⟩ := ih hrest
    exact ⟨d :: ds, mapM_cons_eq_ok_iff.mpr ⟨d, ds, hd, hds, rfl⟩⟩

/-- What is digested for several sets of data. -/
def digestedFor (ds : List ResolvedData) : Bytes := digestInput (ds.map ResolvedData.digest)

/-- All checksums have one length, so none of them is lost in what is digested for them. -/
theorem digestedFor_eq_iff (ds es : List ResolvedData) :
    digestedFor ds = digestedFor es ↔
      ds.map ResolvedData.digest = es.map ResolvedData.digest := by
  have hlength (fs : List ResolvedData) :
      ∀ sum ∈ fs.map ResolvedData.digest, (Bytes.ofText sum).length = 64 :=
    List.forall_mem_map.mpr fun f _ => Bytes.Sha256.length_hex _
  exact flatMap_eq_iff_of_length Bytes.ofText_injective (by decide) (hlength ds) (hlength es)

/-- The pods of a workload carry the digest of some data, which are those of its ConfigMaps. -/
structure CarriesDigest (files : FileTree) (w : Workload) (rs : List Record)
    (ds : List ResolvedData) : Prop where
  resolved : w.configMaps.mapM (ConfigMap.resolve files) = .ok ds
  annotated : ∃ r ∈ rs, r.RunsApplication ∧
    r.podNote Label.configChecksum = .text (Bytes.Sha256.hex (digestedFor ds))

/-- What metrics add to the annotations of pods leaves the checksum as it is. -/
theorem get?_podNotes (w : Workload) (sum : String) :
    (w.podNotes [(Label.configChecksum, sum)]).get? Label.configChecksum = some sum := by
  have hscrape : Label.configChecksum ∉ [Label.scrape, Label.scrapePort, Label.scrapePath] := by
    decide
  simp only [List.mem_cons, List.not_mem_nil, or_false, not_or] at hscrape
  unfold podNotes
  split
  · rw [Assoc.get?_cons, if_pos rfl]
  · rw [Assoc.get?_insertSorted, if_neg hscrape.2.2, Assoc.get?_insertSorted,
      if_neg hscrape.2.1, Assoc.get?_insertSorted, if_neg hscrape.1, Assoc.get?_cons, if_pos rfl]

theorem podNote_of_template (mode : StorageMode) {r : Record} {sum : String}
    (h : r.spec.at "template" = w.podTemplate mode [(Label.configChecksum, sum)]) :
    r.podNote Label.configChecksum = .text sum := by
  have hnote := w.get?_podNotes sum
  have hsome : (w.podNotes [(Label.configChecksum, sum)]).isEmpty = false := by
    cases hnotes : w.podNotes [(Label.configChecksum, sum)] with
    | nil =>
      rw [hnotes] at hnote
      exact absurd hnote nofun
    | cons => rfl
  rw [Record.podNote, h]
  simp [podTemplate, Value.at_mapping, Assoc.get?_cons, hsome, Value.textMap,
    Assoc.get?_mapValues, hnote, -List.isEmpty_iff]

theorem checksumNotes_of_resolve (hmaps : w.configMaps ≠ [])
    (h : w.configMaps.mapM (ConfigMap.resolve files) = .ok ds) :
    w.checksumNotes files =
      .ok [(Label.configChecksum, Bytes.Sha256.hex (digestedFor ds))] := by
  have hsome : ¬ w.configMaps.isEmpty = true := by rwa [List.isEmpty_iff]
  rw [checksumNotes, configChecksum, if_neg hsome, checksums_of_resolve h]
  rfl

/-- ConfigMaps for which the same is digested leave pods as they are. -/
theorem checksumNotes_congr_of_digests (hwmaps : w.configMaps ≠ []) (hvmaps : v.configMaps ≠ [])
    (hw : w.configMaps.mapM (ConfigMap.resolve files) = .ok ds)
    (hv : v.configMaps.mapM (ConfigMap.resolve tree) = .ok es)
    (h : ds.map ConfigMap.digestInput = es.map ConfigMap.digestInput) :
    w.checksumNotes files = v.checksumNotes tree := by
  have hmap (fs : List ResolvedData) : fs.map ResolvedData.digest =
      (fs.map ConfigMap.digestInput).map Bytes.Sha256.hex := by
    rw [List.map_map]
    rfl
  have hdigests : digestedFor ds = digestedFor es := by
    rw [digestedFor_eq_iff, hmap, hmap, h]
  rw [checksumNotes_of_resolve hwmaps hw, checksumNotes_of_resolve hvmaps hv, hdigests]

theorem exists_resolve_of_checksumNotes {notes : Assoc String} (hmaps : w.configMaps ≠ [])
    (h : w.checksumNotes files = .ok notes) :
    ∃ ds, w.configMaps.mapM (ConfigMap.resolve files) = .ok ds ∧
      notes = [(Label.configChecksum, Bytes.Sha256.hex (digestedFor ds))] := by
  obtain ⟨sum, hsum, -⟩ := bind_eq_ok_iff.mp h
  rw [configChecksum, if_neg (by rwa [List.isEmpty_iff])] at hsum
  obtain ⟨sums, hsums, -⟩ := bind_eq_ok_iff.mp hsum
  obtain ⟨ds, hds⟩ := exists_resolve_of_checksums hsums
  rw [checksumNotes_of_resolve hmaps hds] at h
  exact ⟨ds, hds, (Except.ok.inj h).symm⟩

/-- A workload with ConfigMaps is generated only if all of them are resolved, and its pods carry
the digest of their data. -/
theorem exists_carriesDigest (h : w.GeneratedTo files rs) (hmaps : w.configMaps ≠ []) :
    ∃ ds, w.CarriesDigest files rs ds := by
  obtain ⟨a, rfl, h⟩ | ⟨a, rfl, h⟩ := h
  · obtain ⟨notes, hchecksum, h⟩ := bind_eq_ok_iff.mp h
    obtain ⟨config, -, h⟩ := bind_eq_ok_iff.mp h
    obtain rfl := Except.ok.inj h
    obtain ⟨ds, hds, rfl⟩ := exists_resolve_of_checksumNotes hmaps hchecksum
    exact ⟨ds, hds, _, List.mem_cons_self, .inl rfl, podNote_of_template .claims rfl⟩
  · obtain ⟨notes, hchecksum, h⟩ := bind_eq_ok_iff.mp h
    obtain ⟨config, -, h⟩ := bind_eq_ok_iff.mp h
    obtain rfl := Except.ok.inj h
    obtain ⟨ds, hds, rfl⟩ := exists_resolve_of_checksumNotes hmaps hchecksum
    exact ⟨ds, hds, _, List.mem_cons_self, .inr rfl,
      podNote_of_template .claimTemplates rfl⟩

/-- The pods of two workloads carry digests of their data. What is digested for the ConfigMaps of
one and of the other differs if any of their checksums does. What is digested for two ConfigMaps is
the same just if the same stands between their zero bytes. So it tells apart data without zero
bytes in which all texts are kept as texts, and it tells of every single edit, but not of all
changes. -/
theorem digests_apart (hw : w.GeneratedTo files rs) (hwmaps : w.configMaps ≠ [])
    (hv : v.GeneratedTo tree ss) (hvmaps : v.configMaps ≠ []) :
    ∃ ds es, w.CarriesDigest files rs ds ∧ v.CarriesDigest tree ss es ∧
      (digestedFor ds = digestedFor es ↔
        ds.map ResolvedData.digest = es.map ResolvedData.digest) ∧
      ∀ d ∈ ds, ∀ e ∈ es,
        (ConfigMap.digestInput d = ConfigMap.digestInput e ↔ d.pieces = e.pieces) ∧
        (d.IsClear → e.IsClear →
          (ConfigMap.digestInput d = ConfigMap.digestInput e ↔ d = e)) ∧
        (e.IsEditOf d → ConfigMap.digestInput e ≠ ConfigMap.digestInput d) := by
  obtain ⟨ds, hds⟩ := exists_carriesDigest hw hwmaps
  obtain ⟨es, hes⟩ := exists_carriesDigest hv hvmaps
  refine ⟨ds, es, hds, hes, digestedFor_eq_iff ds es, fun d _ e _ => ⟨?_, ?_, ?_⟩⟩
  · exact d.digestInput_eq_iff e
  · exact fun hd he => hd.digestInput_eq_iff he
  · exact fun hedit => hedit.digestInput_ne

/-- An application before and after one of its contents is changed. -/
theorem digests_apart_web :
    let settings (content : String) := (ConfigMap.named "settings").add (.literal "key" content)
    let web (content : String) := (Workload.named "web").addConfigMap (settings content)
    ∃ rs ss ds es, (web "v1").GeneratedTo .empty rs ∧ (web "v2").GeneratedTo .empty ss ∧
      (web "v1").CarriesDigest .empty rs ds ∧ (web "v2").CarriesDigest .empty ss es ∧
      ∀ d ∈ ds, ∀ e ∈ es, ConfigMap.digestInput e ≠ ConfigMap.digestInput d := by
  intro settings web
  have hgenerated (content : String) : ∃ rs, (web content).GeneratedTo .empty rs :=
    ⟨_, .inl ⟨{ workload := web content }, rfl, rfl⟩⟩
  obtain ⟨rs, hrs⟩ := hgenerated "v1"
  obtain ⟨ss, hss⟩ := hgenerated "v2"
  obtain ⟨ds, es, hds, hes, -, hdata⟩ := digests_apart hrs (List.cons_ne_nil _ _) hss
    (List.cons_ne_nil _ _)
  refine ⟨rs, ss, ds, es, hrs, hss, hds, hes, fun d hd e he => (hdata d hd e he).2.2 ?_⟩
  have hresolved (content : String) {ds : List ResolvedData}
      (h : (web content).configMaps.mapM (ConfigMap.resolve .empty) = .ok ds) :
      ds = [⟨[("key", content)], []⟩] := (Except.ok.inj h).symm
  obtain rfl := hresolved "v1" hds.resolved
  obtain rfl := hresolved "v2" hes.resolved
  obtain rfl := List.mem_singleton.mp hd
  obtain rfl := List.mem_singleton.mp he
  exact ⟨[], [], "key", Bytes.ofText "v1", rfl, .inr ⟨Bytes.ofText "v2",
    Bytes.ofText_injective.ne (by decide), rfl⟩⟩

/-- Two entries, one entry that holds a zero byte in place of where the first ends, and the two
kept as they are. Nothing that is digested tells them apart, so the pods keep running. -/
theorem digests_same_settings :
    let plain := ((ConfigMap.named "settings").add (.literal "a" "1")).add (.literal "b" "2")
    let joined := (ConfigMap.named "settings").add (.literal "a" "1\x00b\x002")
    let raw := ((ConfigMap.named "settings").add (.binary "a" [49])).add (.binary "b" [50])
    let web (c : ConfigMap) := (Workload.named "web").addConfigMap c
    ∃ d e f, plain.resolve .empty = .ok d ∧ joined.resolve .empty = .ok e ∧
      raw.resolve .empty = .ok f ∧ [d, e, f].Nodup ∧
      ConfigMap.digestInput d = ConfigMap.digestInput e ∧
      ConfigMap.digestInput d = ConfigMap.digestInput f ∧
      (web plain).checksumNotes .empty = (web joined).checksumNotes .empty ∧
      (web plain).checksumNotes .empty = (web raw).checksumNotes .empty := by
  intro plain joined raw web
  let d : ResolvedData := ⟨[("a", "1"), ("b", "2")], []⟩
  let e : ResolvedData := ⟨[("a", "1\x00b\x002")], []⟩
  let f : ResolvedData := ⟨[], [("a", [49]), ("b", [50])]⟩
  have hbytes (cs : List Char) : Bytes.ofText (String.ofList cs) = _ := Bytes.ofText_ofList cs
  have ha : Bytes.ofText "a" = [97] := hbytes ['a']
  have hb : Bytes.ofText "b" = [98] := hbytes ['b']
  have hone : Bytes.ofText "1" = [49] := hbytes ['1']
  have htwo : Bytes.ofText "2" = [50] := hbytes ['2']
  have hjoined : Bytes.ofText "1\x00b\x002" = [49, 0, 98, 0, 50] :=
    hbytes ['1', '\x00', 'b', '\x00', '2']
  have he : ConfigMap.digestInput d = ConfigMap.digestInput e := by
    simp [ConfigMap.digestInput, ConfigMap.digestEntry, d, e, ha, hb, hone, htwo, hjoined]
  have hf : ConfigMap.digestInput d = ConfigMap.digestInput f := by
    simp [ConfigMap.digestInput, ConfigMap.digestEntry, d, f, ha, hb, hone, htwo]
  have hnotes {c : ConfigMap} {x : ResolvedData} (hx : c.resolve .empty = .ok x)
      (hsame : ConfigMap.digestInput d = ConfigMap.digestInput x) :
      (web plain).checksumNotes .empty = (web c).checksumNotes .empty :=
    checksumNotes_congr_of_digests (List.cons_ne_nil _ _) (List.cons_ne_nil _ _)
      (mapM_cons_eq_ok_iff.mpr ⟨d, [], rfl, rfl, rfl⟩)
      (mapM_cons_eq_ok_iff.mpr ⟨x, [], hx, rfl, rfl⟩) (by simpa using hsame)
  exact ⟨d, e, f, rfl, rfl, rfl, by decide, he, hf, hnotes rfl he, hnotes rfl hf⟩

end Workload

end Rollout
