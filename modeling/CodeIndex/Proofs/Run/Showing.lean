import CodeIndex.Proofs.Run.Provenance
import CodeIndex.Proofs.Run.Refresh

/-!
What the store shows of a file after a run that has indexed it: its new entities, and what was shown
before under the ids that are still current.
-/

namespace CodeIndex

open StateDir

namespace Manifest

/-- No id that is recorded for the path, before or after, is recorded for another one. -/
def Lone (m m' : Manifest) (p : String) : Prop :=
  ∀ q, q ≠ p → ∀ id, m.Lists p id ∨ m'.Lists p id → ¬ (m.Lists q id ∨ m'.Lists q id)

variable {m m' n n' : Manifest} {p : String}

theorem Lone.alike (h : m.Lone m' p) (hm : m.Alike n) (hm' : m'.Alike n') : n.Lone n' p := by
  intro q hq id
  rw [← hm.lists, ← hm'.lists, ← hm.lists, ← hm'.lists]
  exact h q hq id

theorem lists_recordIndexed {r : FileRecord} {now : Duration} (hr : n.get? r.path = m.get? r.path)
    {q id : String} (h : n.Lists q id) : m.Lists q id ∨ (n.recordIndexed r now).Lists q id := by
  obtain ⟨r', hr', hid⟩ := h
  by_cases hq : r.path = q
  · subst hq
    exact .inl ⟨r', hr.symm.trans hr', hid⟩
  · refine .inr ⟨r', ?_, hid⟩
    rw [get?_recordIndexed, if_neg hq]
    exact hr'

theorem Lone.recorded {r : FileRecord} {now : Duration} (h : m.Lone (n.recordIndexed r now) p)
    (hr : n.get? r.path = m.get? r.path) : m.Lone n p := by
  have hlater (q id : String) (hlists : m.Lists q id ∨ n.Lists q id) :
      m.Lists q id ∨ (n.recordIndexed r now).Lists q id :=
    hlists.elim .inl (lists_recordIndexed hr)
  exact fun q hq id hp hq' => h q hq id (hlater p id hp) (hlater q id hq')

theorem lone_of_only (h : ∀ q, (m.get? q).isSome → q = p) (h' : ∀ q, (m'.get? q).isSome → q = p) :
    m.Lone m' p := by
  rintro q hq _ _ (⟨r, hr, _⟩ | ⟨r, hr, _⟩)
  · exact hq (h q (by rw [hr]; rfl))
  · exact hq (h' q (by rw [hr]; rfl))

end Manifest

theorem PreparedFile.mem_of_shows {file : PreparedFile} {before : String → Option Entity}
    {id : String} (h : (file.shows before id).isSome) : id ∈ file.currentIds := by
  by_contra hid
  unfold PreparedFile.shows at h
  rw [if_neg hid] at h
  cases h

theorem PreparedFile.shows_congr (file : PreparedFile) {before before' : String → Option Entity}
    {id : String} (h : file.hasRecord = true → before id = before' id) :
    file.shows before id = file.shows before' id := by
  unfold PreparedFile.shows
  cases hrecord : file.hasRecord with
  | false => rfl
  | true => rw [h hrecord]

namespace MemoryStore

/-- Of a recorded file the store shows recorded ids only. -/
def Backed (s : MemoryStore) (m : Manifest) (p : String) : Prop :=
  (m.get? p).isSome → ∀ id, (s.shown p id).isSome → m.Lists p id

theorem Backed.alike {s : MemoryStore} {m m' : Manifest} {p : String} (h : s.Backed m p)
    (hm : m.Alike m') : s.Backed m' p := by
  intro hrecorded id hsome
  rw [← hm.isSome] at hrecorded
  exact (hm.lists p id).mp (h hrecorded id hsome)

/-- The update of a file leaves what is shown of another one, but for the ids that it claims. -/
theorem shown_elsewhere (s : MemoryStore) (file : PreparedFile)
    (vectors : List Embedding) (hvectors : file.fresh.length ≤ vectors.length)
    (hown : ∀ e ∈ file.fresh, e.filePath = file.path) {q : String} (hne : file.path ≠ q)
    {id : String} (hkept : (s.shown q id).isSome → ¬ file.Claims id) :
    (s.updated file vectors).shown q id = s.shown q id := by
  refine shown_congr fun x hx => ?_
  rw [updated_eq, s.get?_updated file vectors hvectors hown hx hne id]
  refine and_iff_left_of_imp fun hget => hkept ?_
  unfold shown
  rw [hget, Option.filter_some, if_pos hx]
  rfl

end MemoryStore

theorem prepare_finds {σ : Type} (setting : RunSetting σ) (force : Bool) (d : Disk)
    (item : WorkItem) (file : PreparedFile) (h : prepare setting force d item = .ready file) :
    ∃ content modified found,
      d.readFile (Path.join setting.root item.path) = .ok (content, modified) ∧
        setting.extractor.find item.path content = .ok found := by
  unfold prepare at h
  split at h
  · cases h
  · rename_i content modified hread
    obtain ⟨found, hfound, _⟩ := prepareContent_ready h
    exact ⟨content, modified, found, hread, hfound⟩

theorem prepare_lists {σ : Type} {setting : RunSetting σ} {d : Disk} {item : WorkItem}
    {file : PreparedFile} {content : ByteArray} {modified : Nat} {found : List ExtractedEntity}
    (h : prepare setting false d item = .ready file)
    (hread : d.readFile (Path.join setting.root item.path) = .ok (content, modified))
    (hfound : setting.extractor.find item.path content = .ok found) :
    file.Lists item (mintEntities item.path file.lineage found setting.config.variants) ∧
      file.lineage = item.lineage.getD (lineageFor item.path) := by
  rw [prepare_read setting false hread] at h
  exact prepareContent_lists h hfound

/-- The update of a file that is prepared without force leaves the store with what it shows. -/
theorem shown_prepared {σ : Type} {setting : RunSetting σ} {d : Disk} {m : Manifest} {p : String}
    {file : PreparedFile} {s : MemoryStore} {vectors : List Embedding}
    (h : prepare setting false d (WorkItem.ofPath m p) = .ready file)
    (hvectors : file.fresh.length ≤ vectors.length)
    (hfree : ∀ id ∈ file.currentIds, s.isCurated id = false) (hbacked : s.Backed m p) :
    (file.hasRecord = true ↔ (m.get? p).isSome) ∧
      ∀ id, (s.updated file vectors).shown p id = file.shows (s.shown p) id := by
  obtain ⟨content, modified, found, hread, hfound⟩ := prepare_finds setting false d _ file h
  have hlists := (prepare_lists h hread hfound).1
  have hrecord : file.hasRecord = true ↔ (m.get? p).isSome := by
    rw [hlists.recorded, WorkItem.ofPath_lineage, Option.isSome_map]
  have hshown := shown_listed hlists hvectors hfree fun hsome id hid => by
    rw [WorkItem.ofPath_path] at hid
    exact (WorkItem.mem_previousIds m p id).mpr (hbacked (hrecord.mp hsome) id hid)
  rw [WorkItem.ofPath_path] at hshown
  exact ⟨hrecord, hshown⟩

namespace RunState

section Shows

variable (setting : RunSetting MemoryStore) (plan : RunPlan) (home : Location)
  (s₀ : RunState MemoryStore) (m : Manifest) (paths : List String) (p : String)

/-- Between the files of a run the store shows what it did of a recorded file that is not written,
and else what its update left. -/
def Shows (left : List String) (st : MemoryStore) (n : Manifest) : Prop :=
  (∀ id, st.isCurated id = s₀.world.store.isCurated id) ∧
  (m.Lone n p → (∀ id, m.Lists p id ∨ n.Lists p id → s₀.world.store.isCurated id = false) →
    n.get? p = m.get? p ∧
      ((m.get? p).isSome → ∀ id, st.shown p id = s₀.world.store.shown p id) ∨
    p ∉ left ∧ ∃ file, Ripe setting plan home s₀ m paths file ∧ file.path = p ∧
      n.get? p = some (recordOf plan file) ∧
      ∀ id, st.shown p id = file.shows (s₀.world.store.shown p) id)

variable {setting plan home s₀ m paths p}

/-- The update of another file of the run claims no id that is shown of this one. -/
theorem Ripe.shown_other {st : MemoryStore} {n : Manifest} {file : PreparedFile}
    {vectors : List Embedding} {now : Duration} (h : Ripe setting plan home s₀ m paths file)
    (hvectors : file.fresh.length ≤ vectors.length)
    (hlone : m.Lone (n.recordIndexed (recordOf plan file) now) p) (hp : file.path ≠ p)
    (hshown : ∀ id, (st.shown p id).isSome → m.Lists p id ∨ n.Lists p id) (id : String) :
    (st.updated file vectors).shown p id = st.shown p id := by
  obtain ⟨_, d, _, hprepared⟩ := h
  have hfaithful := (prepare_faithful setting plan.force d m file.path file hprepared).2
  have hget (q : String) : (n.recordIndexed (recordOf plan file) now).get? q =
      if file.path = q then some (recordOf plan file) else n.get? q :=
    Manifest.get?_recordIndexed _ _ _ q
  refine st.shown_elsewhere file vectors hvectors hfaithful.path hp fun hsome hclaims => ?_
  refine hlone file.path hp id ((hshown id hsome).imp_right fun ⟨r, hr, hid⟩ =>
    ⟨r, (hget p).trans ((if_neg hp).trans hr), hid⟩) ?_
  rcases hclaims with ⟨e, he, rfl⟩ | hstale
  · exact .inr ⟨_, (hget _).trans (if_pos rfl),
      Std.ExtTreeSet.mem_toList.mpr (hfaithful.fresh e he)⟩
  · exact .inl ((hfaithful.previous id).mp ((VectorStore.mem_staleIds _ _ _).mp hstale).1)

/-- The update of a file carries on what the store shows. -/
theorem Shows.updated {left : List String} {st : MemoryStore} {n : Manifest} {file : PreparedFile}
    {vectors : List Embedding}
    (h : Shows setting plan home s₀ m paths p (file.path :: left) st n)
    (hplain : plan.force = false) (hbacked : s₀.world.store.Backed m p)
    (hripe : Ripe setting plan home s₀ m paths file) (hleft : file.path ∉ left)
    (hvectors : file.fresh.length ≤ vectors.length)
    (huntouched : n.get? file.path = m.get? file.path) (now : Duration) :
    Shows setting plan home s₀ m paths p left (st.updated file vectors)
      (n.recordIndexed (recordOf plan file) now) := by
  obtain ⟨hcurated, hshows⟩ := h
  have hget (q : String) : (n.recordIndexed (recordOf plan file) now).get? q =
      if file.path = q then some (recordOf plan file) else n.get? q :=
    Manifest.get?_recordIndexed _ _ _ q
  refine ⟨fun id => ?_, fun hlone hfree => ?_⟩
  · rw [MemoryStore.updated_eq, MemoryStore.isCurated_edited]
    exact hcurated id
  have hcase := hshows (hlone.recorded huntouched) fun id hid =>
    hfree id (hid.elim .inl (Manifest.lists_recordIndexed huntouched))
  by_cases hp : file.path = p
  · -- the file was not written before, and now shows what its update leaves
    subst hp
    obtain ⟨_, hbefore⟩ := hcase.resolve_right fun h => h.1 List.mem_cons_self
    obtain ⟨_, d, _, hprepared⟩ := id hripe
    rw [hplain] at hprepared
    obtain ⟨hrecord, hshown⟩ := shown_prepared (s := st) hprepared hvectors
      (fun id hid => (hcurated id).trans (hfree id (.inr
        ⟨_, (hget _).trans (if_pos rfl), Std.ExtTreeSet.mem_toList.mpr hid⟩)))
      fun hsome id hshown => hbacked hsome id (hbefore hsome id ▸ hshown)
    refine .inr ⟨hleft, file, hripe, rfl, (hget _).trans (if_pos rfl), fun id => ?_⟩
    rw [hshown]
    exact file.shows_congr fun h => hbefore (hrecord.mp h) id
  · rw [hget, if_neg hp]
    rcases hcase with ⟨hsame, hbefore⟩ | ⟨hout, f, hf, hpath, hr, hafter⟩
    · refine .inl ⟨hsame, fun hsome id => ?_⟩
      rw [hripe.shown_other hvectors hlone hp fun id hshown =>
        .inl (hbacked hsome id (hbefore hsome id ▸ hshown))]
      exact hbefore hsome id
    · refine .inr ⟨fun hin => hout (List.mem_cons_of_mem _ hin), f, hf, hpath, hr, fun id => ?_⟩
      rw [hripe.shown_other hvectors hlone hp fun id hshown =>
        .inr ⟨_, hr, Std.ExtTreeSet.mem_toList.mpr (f.mem_of_shows (hafter id ▸ hshown))⟩]
      exact hafter id

theorem Shows.fewer {left left' : List String} {st : MemoryStore} {n : Manifest}
    (h : Shows setting plan home s₀ m paths p left st n) (hsub : left' ⊆ left) :
    Shows setting plan home s₀ m paths p left' st n :=
  ⟨h.1, fun hlone hfree => (h.2 hlone hfree).imp_right fun hafter =>
    ⟨fun hin => hafter.1 (hsub hin), hafter.2⟩⟩

/-- The files that are left of a run are written one by one. -/
theorem drain_shows (plan : RunPlan) {s t : RunState MemoryStore} (hstill : setting.env.Still)
    (hstore : setting.store = MemoryStore.calls)
    (hready : Ready setting.stateDir home s.world.disk) (ht : Since home s t)
    (hsound : t.optimizer.Sound) (left : List String) (hnodup : left.Nodup)
    (hplain : plan.force = false) (hbacked : t.world.store.Backed t.manifest p) :
    Runs (drain setting plan left.length { items := left.map (WorkItem.ofPath t.manifest) }) t
      (fun _ u => Shows setting plan home t t.manifest left p [] u.world.store u.manifest)
      (fun _ _ => True) := by
  have hcarried := (growing_carried setting home t t.manifest hstill plan (hready.of_same ht.same)
    left).alongside (Shows setting plan home t t.manifest left p) (fun _ _ _ _ => Shows.fewer) (by
      rintro _ file vectors left' u hripe hleft hvectors hgrowing hshows
      rw [hstore]
      apply runs_imp _ _ _ (FileEdit.reach_performs setting.env (.update file.path file.previousIds
        file.currentIds (withVectors file.fresh vectors) file.hasRecord) u.world)
      · rintro _ w ⟨_, hw⟩
        rw [hw, FileEdit.edits, ← MemoryStore.updated_eq]
        exact hshows.updated hplain hbacked hripe hleft hvectors
          (hgrowing.untouched _ List.mem_cons_self) w.unixTime
      · exact fun _ _ h => h)
  apply runs_imp _ _ _ (hcarried.drain hstill hnodup t
    ⟨⟨Since.refl ht.same.after, hsound, fun _ _ => rfl, fun _ => .inl rfl⟩,
      fun _ => rfl, fun _ _ => .inl ⟨rfl, fun _ _ => rfl⟩⟩)
  · exact fun _ u h => h.1.2
  · exact fun _ _ h => h

/-- The batches of a run begin with what deletions and renames lead to, and write the files. -/
theorem runBatches_shows (plan : RunPlan) (changes : ChangeSet) (s : RunState MemoryStore)
    (hstill : setting.env.Still) (hstore : setting.store = MemoryStore.calls)
    (hready : Ready setting.stateDir home s.world.disk) (hsound : s.optimizer.Sound)
    (hplain : plan.force = false)
    (hbacked : (s.world.store.edited (shapeOf plan changes s setting).edits).Backed
      (shapeOf plan changes s setting).manifest p) :
    Runs (runBatches setting plan changes) s
      (fun ending t => ending = .finished → ∃ u paths, Same home s.world.disk u.world.disk ∧
        u.world.store = s.world.store.edited (shapeOf plan changes s setting).edits ∧
        u.manifest.Alike (shapeOf plan changes s setting).manifest ∧
        Shows setting plan home u u.manifest paths p [] t.world.store t.manifest)
      (fun _ _ => True) := by
  apply runBatches_rule setting plan changes (fun _ t => Since home s t ∧ t.optimizer.Sound ∧
    t.world.store = s.world.store.edited (shapeOf plan changes s setting).edits ∧
    t.manifest.Alike (shapeOf plan changes s setting).manifest)
  · exact fun _ h => by cases h
  · intro hdeleted hrenamed
    have hshape : shapeOf plan changes s setting = .start s.manifest :=
      Shape.ofChanges_plain plan _ changes s.manifest hdeleted hrenamed
    rw [hshape]
    exact ⟨Since.refl hready.leaf, hsound, rfl, .of_get? fun _ => rfl⟩
  · apply runs_imp _ _ _ (applyStructural_committed setting hstill hstore plan changes s hready)
    · rintro reindex t ⟨_, u, v, hu, ⟨touched, hv⟩, hquiet⟩
      obtain ⟨hstored, hrecords⟩ := hu.settled hv hquiet
      refine ⟨hquiet.since setting (hv.since hu.since), hquiet.optimizer ?_, hstored,
        .of_get? hrecords⟩
      rw [hv.optimizer, hu.rest.2.2]
      exact hsound
    · exact fun _ _ _ => trivial
  · rintro reindex t ⟨ht, hsound', hstored, hrecords⟩
    rw [← hstored] at hbacked
    apply runs_imp _ _ _ (drain_shows plan hstill hstore hready ht hsound' _ (sortedPaths_nodup _)
      hplain (hbacked.alike hrecords.symm))
    · exact fun ending u hu _ => ⟨t, _, ht.same, hstored, hrecords, hu⟩
    · exact fun _ _ h => h

end Shows

end RunState

section Histories

open RunSetting RunState

variable {setting : RunSetting MemoryStore} {home : Location} {filter : FileFilter}
  {m m₁ m₂ : Manifest} {p : String}

namespace Turn

def entering (t : Turn setting home filter m m₁) : MemoryStore :=
  t.before.store.edited t.shape.edits

def Finds (t : Turn setting home filter m m₁) (p : String) (found : List ExtractedEntity) : Prop :=
  ∃ content modified,
    t.opened.disk.readFile (Path.join setting.root p) = .ok (content, modified) ∧
      setting.extractor.find p content = .ok found

/-- The batches of the run end in `u`, after they have begun with what deletions and renames lead
to. -/
def Drained (t : Turn setting home filter m m₁) (p : String) (u : RunState MemoryStore) : Prop :=
  ∃ s plan paths, plan.force = false ∧ Same home t.opened.disk s.world.disk ∧
    s.world.store = t.entering ∧ s.manifest.Alike t.shape.manifest ∧
    Shows setting plan home s s.manifest paths p [] u.world.store u.manifest

theorem drained (t : Turn setting home filter m m₁) (hstill : setting.env.Still)
    (hstore : setting.store = MemoryStore.calls)
    (hfilter : setting.config.filterOf setting.root = .ok filter) (hplain : t.request.force = false)
    (hbacked : t.entering.Backed t.shape.manifest p) :
    ∃ u, t.Drained p u ∧ u.manifest.Alike m₁ ∧ t.after.store = u.world.store := by
  obtain ⟨_, _, hperformed, _⟩ := t.finished hstill hfilter
  have hready := t.ready.of_same (t.seen hfilter).1
  apply t.batches hstill hfilter
  rintro plan s hbegun ⟨hshape, _, hedits⟩
  have hready' := hready.of_same hbegun.same
  have hforce : plan.force = false := hbegun.force.trans hplain
  have hentering : s.world.store.edited (shapeOf plan t.detected.changes s setting).edits =
      t.entering := by
    rw [hedits, hbegun.world.1, hperformed.opened.rest.1]
    rfl
  have hbacked' := hbacked.alike hshape.symm
  rw [← hentering] at hbacked'
  apply runs_imp _ _ _ (runs_and _ _ _
    (runBatches_grows plan t.detected.changes s hstill hstore hready' hbegun.sound)
    (runBatches_shows plan t.detected.changes s hstill hstore hready' hbegun.sound hforce hbacked'))
  · rintro ending u ⟨⟨hsince, _⟩, hshows⟩
    refine ⟨hsince.same, fun hending => ?_⟩
    obtain ⟨s', paths, hdisk, hstored, hrecords, hu⟩ := hshows hending
    exact ⟨s', plan, paths, hforce, hbegun.same.trans hdisk, hstored.trans hentering,
      fun q => (hrecords q).trans (hshape q), hu⟩
  · exact fun _ _ _ => trivial

/-- A run that is not forced leaves of a file that it indexes what the file shows over what was
shown before. -/
theorem shows (t : Turn setting home filter m m₁) (hstill : setting.env.Still)
    (hstore : setting.store = MemoryStore.calls)
    (hfilter : setting.config.filterOf setting.root = .ok filter) (hplain : t.request.force = false)
    (hp : t.Indexes p) (hlone : t.shape.manifest.Lone m₁ p)
    (hbacked : t.entering.Backed t.shape.manifest p)
    (hfree : ∀ id, t.shape.manifest.Lists p id ∨ m₁.Lists p id →
      t.before.store.isCurated id = false)
    {found : List ExtractedEntity} (hfound : t.Finds p found) {r : FileRecord}
    (hr : m₁.get? p = some r) :
    (∀ id, t.after.store.isCurated id = t.before.store.isCurated id) ∧
      ∃ file : PreparedFile,
        file.Lists (WorkItem.ofPath t.shape.manifest p)
          (mintEntities p file.lineage found setting.config.variants) ∧
        file.lineage = (WorkItem.ofPath t.shape.manifest p).lineage.getD (lineageFor p) ∧
        r.lineage = file.lineage ∧ r.entityIds = file.currentIds.toList ∧
        ∀ id, t.after.store.shown p id = file.shows (t.entering.shown p) id := by
  obtain ⟨u, ⟨s, plan, paths, hforce, hdisk, hstored, hrecords, hcurated, hshows⟩, halike, hafter⟩ :=
    t.drained hstill hstore hfilter hplain hbacked
  have hcurated' (id : String) : s.world.store.isCurated id = t.before.store.isCurated id := by
    rw [hstored]
    exact MemoryStore.isCurated_edited _ _ _
  have hready := t.ready.of_same (t.seen hfilter).1
  refine ⟨fun id => by rw [hafter, hcurated, hcurated'], ?_⟩
  have hfree' (id : String) (hid : s.manifest.Lists p id ∨ u.manifest.Lists p id) :
      s.world.store.isCurated id = false := by
    rw [hrecords.lists, halike.lists] at hid
    exact (hcurated' id).trans (hfree id hid)
  rcases hshows (hlone.alike hrecords.symm halike.symm) hfree' with
    ⟨hsame, _⟩ | ⟨_, file, hripe, rfl, hu, hshown⟩
  · -- the file would have its record of before
    refine absurd ?_ hp.2
    obtain ⟨r', hr', hhash, hlineage, hids⟩ := halike.symm.record hr
    obtain ⟨r'', hr'', hhash', hlineage', hids'⟩ := hrecords.record (hsame ▸ hr')
    exact ⟨r'', r, hr'', hr, by simp only [FileRecord.essence, *]⟩
  · obtain ⟨r', hr', _, hlineage, hids⟩ := halike.record hu
    rw [hr] at hr'
    cases hr'
    obtain ⟨_, d, hsame, hprepared⟩ := hripe
    rw [hforce, hrecords.workItem] at hprepared
    obtain ⟨content, modified, hread, hfinds⟩ := hfound
    obtain ⟨content', modified', hall⟩ := t.workable.legible (t.seen hfilter).2 _
      (t.taken_writes _ (hp.written hstill hstore hfilter hr).1)
    rw [hall _ hready.same_refl] at hread
    cases hread
    have hlisted := prepare_lists hprepared
      (by rw [WorkItem.ofPath_path]; exact hall _ (hdisk.trans hsame))
      (by rw [WorkItem.ofPath_path]; exact hfinds)
    rw [WorkItem.ofPath_path] at hlisted
    refine ⟨file, hlisted.1, hlisted.2, hlineage, hids, fun id => ?_⟩
    rw [hafter, hshown, hstored]

theorem entering_stays (t : Turn setting home filter m m₁)
    (hp : p ∉ structuralPaths t.detected.changes) :
    t.shape.manifest.get? p = m.get? p ∧
      ∀ id, t.entering.shown p id = t.before.store.shown p id := by
  have hsame : SameOutside (structuralPaths t.detected.changes) t.before.store t.entering m
      t.shape.manifest := Shape.ofChanges_sameOutside _ _ _
  exact ⟨hsame.records p hp, fun id => MemoryStore.shown_congr fun x hx =>
    hsame.entries id x (StoredEntity.outside_of_derivedFor hx hp)⟩

/-- A file of which nothing is recorded when the run turns to it shows its entities in the end. -/
theorem shows_anew (t : Turn setting home filter m m₁) (hstill : setting.env.Still)
    (hstore : setting.store = MemoryStore.calls)
    (hfilter : setting.config.filterOf setting.root = .ok filter) (hplain : t.request.force = false)
    (hp : t.Indexes p) (hlone : t.shape.manifest.Lone m₁ p)
    (hunlisted : ∀ id, ¬ t.shape.manifest.Lists p id)
    (hbare : (t.shape.manifest.get? p).isSome → ∀ id, t.entering.shown p id = none)
    (hfree : ∀ id, m₁.Lists p id → t.before.store.isCurated id = false)
    {found : List ExtractedEntity} (hfound : t.Finds p found) {r : FileRecord}
    (hr : m₁.get? p = some r) :
    (∀ id, t.after.store.isCurated id = t.before.store.isCurated id) ∧
      (∀ id, t.after.store.shown p id =
        entityOf (mintEntities p r.lineage found setting.config.variants) id) ∧
      ∀ id, m₁.Lists p id ↔
        ∃ e ∈ mintEntities p r.lineage found setting.config.variants, e.id = id := by
  obtain ⟨hcurated, file, hlists, -, hlineage, hids, hshown⟩ := t.shows hstill hstore hfilter hplain
    hp hlone (fun hsome id h => by rw [hbare hsome] at h; cases h)
    (fun id hid => hfree id (hid.resolve_left (hunlisted id))) hfound hr
  rw [← hlineage] at hlists
  have hprevious : (WorkItem.ofPath t.shape.manifest p).previousIds = ∅ := by
    rw [Std.ExtTreeSet.eq_empty_iff_forall_not_mem]
    exact fun id hid => hunlisted id ((WorkItem.mem_previousIds _ _ id).mp hid)
  have hrecord (h : file.hasRecord = true) : ∀ id, t.entering.shown p id = none := by
    rw [hlists.recorded, WorkItem.ofPath_lineage, Option.isSome_map] at h
    exact hbare h
  refine ⟨hcurated, fun id => ?_, fun id => ?_⟩
  · rw [hshown]
    exact shows_first hlists hprevious hrecord id
  · rw [← hlists.current, ← Std.ExtTreeSet.mem_toList, ← hids]
    exact ⟨fun ⟨_, hr', hid⟩ => Option.some.inj (hr.symm.trans hr') ▸ hid, fun hid => ⟨r, hr, hid⟩⟩

end Turn

/-- Two runs that are not forced, one after the other, index a file: the first one anew, and the
second one where it stands. No other file has its ids. -/
structure Reindexed (t₁ : Turn setting home filter m m₁) (t₂ : Turn setting home filter m₁ m₂)
    (p : String) : Prop where
  plain : t₁.request.force = false ∧ t₂.request.force = false
  stored : t₂.before.store = t₁.after.store
  first : t₁.Indexes p
  second : t₂.Indexes p
  unlisted : ∀ id, ¬ t₁.shape.manifest.Lists p id
  bare : (t₁.shape.manifest.get? p).isSome → ∀ id, t₁.entering.shown p id = none
  stays : p ∉ structuralPaths t₂.detected.changes
  lone : t₁.shape.manifest.Lone m₁ p ∧ t₂.shape.manifest.Lone m₂ p
  free : ∀ id, m₁.Lists p id ∨ m₂.Lists p id → t₁.before.store.isCurated id = false

/-- After two runs that index a file one after the other, the store shows the entities of its second
version exactly when those with an identity of the first one have the same scope, signature and last
line. -/
theorem Reindexed.shown_iff {t₁ : Turn setting home filter m m₁}
    {t₂ : Turn setting home filter m₁ m₂} (h : Reindexed t₁ t₂ p) (hstill : setting.env.Still)
    (hstore : setting.store = MemoryStore.calls)
    (hfilter : setting.config.filterOf setting.root = .ok filter) {r : FileRecord}
    (hr : m₁.get? p = some r) {found found' : List ExtractedEntity} (hfound : t₁.Finds p found)
    (hfound' : t₂.Finds p found')
    (htold : ToldApart r.lineage setting.config.variants found found') :
    (∀ id, t₂.after.store.shown p id =
        entityOf (mintEntities p r.lineage found' setting.config.variants) id) ↔
      ∀ a ∈ mintEntities p r.lineage found setting.config.variants,
      ∀ b ∈ mintEntities p r.lineage found' setting.config.variants, a.id = b.id →
        a.scope = b.scope ∧ a.signature = b.signature ∧ a.span.endLine = b.span.endLine := by
  obtain ⟨⟨hplain, hplain'⟩, hstored, hfirst, hsecond, hunlisted, hbare, hstays, ⟨hlone, hlone'⟩,
    hfree⟩ := h
  obtain ⟨hcurated, hversion, hlisted⟩ := t₁.shows_anew hstill hstore hfilter hplain hfirst hlone
    hunlisted hbare (fun id hid => hfree id (.inl hid)) hfound hr
  -- the second run finds what the first one has left
  obtain ⟨hrecord, hstaying⟩ := t₂.entering_stays hstays
  have hbefore (id : String) : t₂.entering.shown p id =
      entityOf (mintEntities p r.lineage found setting.config.variants) id := by
    rw [hstaying, hstored, hversion]
  have hlisted' (id : String) : t₂.shape.manifest.Lists p id ↔ m₁.Lists p id := by
    unfold Manifest.Lists
    rw [hrecord]
  obtain ⟨r', hr'⟩ := Option.isSome_iff_exists.mp hsecond.1
  obtain ⟨_, file, hlists, hlineage, _, _, hshown⟩ := t₂.shows hstill hstore hfilter hplain' hsecond
    hlone' (fun _ id hsome => by
      rw [hbefore] at hsome
      obtain ⟨e, he⟩ := Option.isSome_iff_exists.mp hsome
      exact (hlisted' id).mpr ((hlisted id).mpr ⟨e, entityOf_some _ id e he⟩))
    (fun id hid => by
      rw [hlisted'] at hid
      rw [hstored, hcurated]
      exact hfree id hid) hfound' hr'
  have hheld : (WorkItem.ofPath t₂.shape.manifest p).lineage = some r.lineage := by
    rw [WorkItem.ofPath_lineage, hrecord, hr, Option.map_some]
  rw [hheld, Option.getD_some] at hlineage
  rw [hlineage] at hlists
  simp only [hshown, funext hbefore]
  refine htold.shows_iff hlists (by rw [hheld]; rfl) (fun id => ?_) fun _ => rfl
  rw [WorkItem.mem_previousIds, ← hlisted, ← hlisted']
  exact Iff.rfl

end Histories

section Rescoped

open RunSetting RunState

def rescopedDisk (source : String) : Disk := sampleDisk [("a.py", source)]

theorem rescoped_tree (source : String) (h : source = "class A" ∨ source = "class B") :
    Ready "/w/.sift" sampleHome (rescopedDisk source) ∧ (rescopedDisk source).Linkless ∧
      (rescopedDisk source).readFile (Path.join "/w" "a.py") = .ok (source.toUTF8, 0) ∧
      sampleFilter.inspect (rescopedDisk source) "a.py" =
        .present (Digest.contentHash source.toUTF8) := by
  refine ⟨?_, ?_, ?_, ?_⟩
  · rcases h with rfl | rfl <;> (apply sample_ready <;> decide)
  · rcases h with rfl | rfl <;> exact Disk.linkless_of_all _ (by decide)
  · rcases h with rfl | rfl <;> decide
  · rw [FileFilter.inspect_present]
    refine ⟨by decide, source.toUTF8, 0, ?_, ?_, ?_, rfl⟩ <;>
      (rcases h with rfl | rfl <;> decide +kernel)

theorem rescoped_modified (m : Manifest) (look : String → FileState) (r : FileRecord)
    (hash : ContentHash) (hr : m.get? "a.py" = some r) (hlook : look "a.py" = .present hash)
    (hne : r.contentHash ≠ hash) :
    confirm m look { modified := ["a.py"] } = ⟨{ modified := ["a.py"] }, []⟩ := by
  have hsorting : (Sorting.ofCandidates m look { modified := ["a.py"] }).paths = ["a.py"] :=
    sortedPaths_single _ "a.py" fun _ => List.mem_singleton
  have hcompared : ["a.py"].map (fun path => (path, compareRecord (m.get? path) (look path))) =
      [("a.py", .modified)] := by
    rw [List.map_singleton, hr, hlook]
    unfold compareRecord
    dsimp only
    rw [if_neg hne]
  unfold confirm
  dsimp only
  rw [hsorting, hcompared]
  show (⟨.ofLists [] ["a.py"] [] [], sortedPaths []⟩ : Confirmed) = _
  decide

theorem methodOf_toldApart (lineage source source' : String) :
    ToldApart lineage [.metadata] [methodOf source] [methodOf source'] := by
  constructor
  · intro a ha b hb v hv v' hv' _
    rw [List.mem_singleton] at ha hb hv hv'
    rw [ha, hb, hv, hv']
    rfl
  · intro a ha b hb _
    rw [List.mem_singleton] at ha hb
    rw [ha, hb]
    rfl

theorem rescoped_found {m m' : Manifest}
    (t : Turn (sampleSetting methodExtractor fun _ => .outside) sampleHome sampleFilter m m')
    (source : String) (h : source = "class A" ∨ source = "class B")
    (hsame : Same sampleHome (rescopedDisk source) t.opened.disk) :
    t.Finds "a.py" [methodOf source] := by
  obtain ⟨hready, hlinks, hread, hlook⟩ := rescoped_tree source h
  exact ⟨source.toUTF8, 0, (sample_reads hready hlinks hlook hsame).trans hread,
    methodExtractor_find source⟩

/-- A file is indexed, and again once the class above its method has another name. -/
theorem rescoped_history : ∃ m₁ m₂ : Manifest,
    ∃ t₁ : Turn (sampleSetting methodExtractor fun _ => .outside) sampleHome sampleFilter .empty m₁,
    ∃ t₂ : Turn (sampleSetting methodExtractor fun _ => .outside) sampleHome sampleFilter m₁ m₂,
    ∃ r,
      (t₁.before = sampleWorld (rescopedDisk "class A") (sampleCheckpoint "old") .empty ∧
        t₁.request = .changeset { added := ["a.py"] }) ∧
      (t₂.before = { sampleWorld (rescopedDisk "class B") (sampleCheckpoint "old") m₁ with
          store := t₁.after.store } ∧ t₂.request = .changeset { modified := ["a.py"] }) ∧
      m₁.get? "a.py" = some r ∧ Reindexed t₁ t₂ "a.py" ∧
      t₁.Finds "a.py" [methodOf "class A"] ∧ t₂.Finds "a.py" [methodOf "class B"] := by
  obtain ⟨hready₁, hlinks₁, _, hlook₁⟩ := rescoped_tree "class A" (.inl rfl)
  obtain ⟨hready₂, hlinks₂, _, hlook₂⟩ := rescoped_tree "class B" (.inr rfl)
  have hdiffer : Digest.contentHash "class A".toUTF8 ≠ Digest.contentHash "class B".toUTF8 := by
    decide +kernel
  -- the file is indexed
  obtain ⟨m₁, t₁, hbefore₁, hrequest₁, hstorable₁, hsame₁, _, hshape₁, hrecords₁⟩ :=
    sample_supplied methodExtractor (fun _ _ => ⟨_, rfl⟩) (rescopedDisk "class A") .empty {} _ _
      hready₁ hlinks₁ Manifest.empty_storable
      (reused_added .empty _ _ _ (Manifest.get?_empty _) hlook₁)
  obtain ⟨r₁, hr₁, hhash₁⟩ := hrecords₁.recorded (.inl List.mem_cons_self)
  have hcontent₁ := FileState.present.inj (hlook₁.symm.trans hhash₁)
  -- it is indexed again with its other content
  obtain ⟨m₂, t₂, hbefore₂, hrequest₂, _, hsame₂, hdetected₂, hshape₂, hrecords₂⟩ :=
    sample_supplied methodExtractor (fun _ _ => ⟨_, rfl⟩) (rescopedDisk "class B") m₁
      t₁.after.store _ _ hready₂ hlinks₂ hstorable₁
      (rescoped_modified m₁ _ r₁ _ hr₁ hlook₂ (hcontent₁ ▸ hdiffer))
  obtain ⟨r₂, hr₂, hhash₂⟩ := hrecords₂.recorded (.inr (.inl List.mem_cons_self))
  have hcontent₂ := FileState.present.inj (hlook₂.symm.trans hhash₂)
  have hnone (q : String) : t₁.shape.manifest.get? q = none := by
    rw [hshape₁]
    exact Manifest.get?_empty q
  have hstay : t₂.shape.manifest = m₁ := by
    rw [hshape₂]
    rfl
  -- no other file is recorded
  have hempty (q : String) (h : (t₁.shape.manifest.get? q).isSome) : q = "a.py" := by
    rw [hnone] at h
    cases h
  have honly₁ (q : String) (h : (m₁.get? q).isSome) : q = "a.py" := by
    by_contra hq
    rw [hrecords₁.isSome_rest fun hmem => hq (List.mem_singleton.mp hmem),
      Manifest.get?_empty] at h
    cases h
  have honly₂ (q : String) (h : (m₂.get? q).isSome) : q = "a.py" := by
    by_contra hq
    rw [hrecords₂.isSome_rest fun hmem => hq (List.mem_singleton.mp hmem)] at h
    exact hq (honly₁ q h)
  refine ⟨m₁, m₂, t₁, t₂, r₁, ⟨hbefore₁, hrequest₁⟩, ⟨hbefore₂, hrequest₂⟩, hr₁, ?_,
    rescoped_found t₁ _ (.inl rfl) hsame₁, rescoped_found t₂ _ (.inr rfl) hsame₂⟩
  constructor
  case plain =>
    rw [hrequest₁, hrequest₂]
    exact ⟨rfl, rfl⟩
  case stored => rw [hbefore₂]
  case first => exact t₁.indexes_new (hnone _) (by rw [hr₁]; rfl)
  case second =>
    refine t₂.indexes_changed (hstay ▸ hr₁) hr₂ ?_
    rw [← hcontent₁, ← hcontent₂]
    exact hdiffer
  case unlisted =>
    rintro id ⟨r, hr, _⟩
    cases (hnone _).symm.trans hr
  case bare =>
    intro hrecorded
    rw [hnone] at hrecorded
    cases hrecorded
  case stays =>
    rw [hdetected₂]
    exact List.not_mem_nil
  case lone =>
    rw [hstay]
    exact ⟨Manifest.lone_of_only hempty honly₁, Manifest.lone_of_only honly₁ honly₂⟩
  case free =>
    intro id _
    rw [hbefore₁]
    rfl

/-- The identity of the method does not tell its classes apart, so that its first scope is still
shown. -/
theorem rescoped_not_shown : ∃ m₁ m₂ : Manifest,
    ∃ t₁ : Turn (sampleSetting methodExtractor fun _ => .outside) sampleHome sampleFilter .empty m₁,
    ∃ t₂ : Turn (sampleSetting methodExtractor fun _ => .outside) sampleHome sampleFilter m₁ m₂,
    ∃ r,
      (t₁.before = sampleWorld (rescopedDisk "class A") (sampleCheckpoint "old") .empty ∧
        t₁.request = .changeset { added := ["a.py"] }) ∧
      (t₂.before = { sampleWorld (rescopedDisk "class B") (sampleCheckpoint "old") m₁ with
          store := t₁.after.store } ∧ t₂.request = .changeset { modified := ["a.py"] }) ∧
      m₁.get? "a.py" = some r ∧ ¬ ∀ id, t₂.after.store.shown "a.py" id =
        entityOf (mintEntities "a.py" r.lineage [methodOf "class B"] [.metadata]) id := by
  obtain ⟨m₁, m₂, t₁, t₂, r, hfirst, hsecond, hr, hreindexed, hfound, hfound'⟩ := rescoped_history
  refine ⟨m₁, m₂, t₁, t₂, r, hfirst, hsecond, hr, fun hall => ?_⟩
  have htold := methodOf_toldApart r.lineage "class A" "class B"
  have hiff := hreindexed.shown_iff (sample_still _ _) rfl sampleFilter_eq hr hfound hfound' htold
  have hminted (source : String) : (methodOf source).mint "a.py" r.lineage .metadata ∈
      mintEntities "a.py" r.lineage [methodOf source] [.metadata] := by
    rw [mintEntities_method]
    exact List.mem_cons_self
  have hscope := (hiff.mp hall _ (hminted "class A") _ (hminted "class B") rfl).1
  exact absurd (Option.some.inj hscope) (by decide)

end Rescoped

end CodeIndex
