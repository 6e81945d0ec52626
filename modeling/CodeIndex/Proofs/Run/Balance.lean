import CodeIndex.Proofs.Run.Agreement
import CodeIndex.Proofs.Run.Performed
import CodeIndex.Proofs.Run.Progress
import CodeIndex.Proofs.Store.Sizes

/-!
The accounts of a run: what it adds less what it removes is the change in the number of derived
entries, and each entity of a file that is written is added or unchanged. A run that embeds every
entity anew counts those that the files had before as both.
-/

namespace CodeIndex

/-! ### The update of a file -/

def PreparedFile.edit (file : PreparedFile) (vectors : List Embedding) : FileEdit :=
  .update file.path file.previousIds file.currentIds (RunState.withVectors file.fresh vectors)
    file.hasRecord

namespace PreparedFile

variable {file : PreparedFile} {vectors : List Embedding}

theorem withVectors_ids (hvectors : file.fresh.length ≤ vectors.length) :
    (RunState.withVectors file.fresh vectors).map (·.entity.id) = file.fresh.map (·.id) := by
  have hentities : (file.fresh.zip vectors).map Prod.fst = file.fresh := List.map_fst_zip hvectors
  unfold RunState.withVectors
  rw [List.map_map]
  conv_rhs => rw [← hentities, List.map_map]
  rfl

/-- Every new entity is counted as added, and every id that the file had and still has as
unchanged. -/
theorem stats_edit (hvectors : file.fresh.length ≤ vectors.length) (s : MemoryStore) :
    ((file.edit vectors).stats s).added = file.fresh.length ∧
      ((file.edit vectors).stats s).unchanged = file.unchanged.length := by
  have hlength := congrArg List.length (withVectors_ids hvectors)
  rw [List.length_map, List.length_map] at hlength
  exact ⟨hlength, rfl⟩

end PreparedFile

namespace MemoryStore

theorem isDerived_iff (s : MemoryStore) (id : String) :
    s.isDerived id = true ↔ ∃ path, s.Holds path id := by
  unfold isDerived Holds
  rw [Option.any_eq_true]
  constructor
  · rintro ⟨e, hget, horigin⟩
    exact ⟨e.entity.filePath, e, hget, (isDerivedFor_iff e _).mpr ⟨eq_of_beq horigin, rfl⟩⟩
  · rintro ⟨path, e, hget, hderived⟩
    exact ⟨e, hget, beq_iff_eq.mpr ((isDerivedFor_iff e path).mp hderived).1⟩

/-- The update of a file whose ids are its own adds its new entities, but for those that it had. -/
theorem size_edit {s : MemoryStore} {m : Manifest} {file : PreparedFile} {force : Bool}
    {entities : List Entity} (hsynced : s.Synced m) (hfile : file.Faithful m)
    (hdivided : file.Divided force entities)
    (hfree : ∀ id ∈ file.currentIds, s.isCurated id = false)
    (halone : ∀ id ∈ file.currentIds, ∀ q, q ≠ file.path → ¬ s.Holds q id)
    {vectors : List Embedding} (hvectors : file.fresh.length ≤ vectors.length) :
    (s.edited (file.edit vectors).edits).derivedSize + ((file.edit vectors).stats s).removed +
        (if force then ((file.edit vectors).stats s).unchanged else 0) =
      s.derivedSize + ((file.edit vectors).stats s).added := by
  have hids := file.withVectors_ids hvectors
  -- without a record the store holds nothing for the path, so clearing it takes nothing away
  have hcleared (q id : String) : (FileEdit.cleared s file.path file.hasRecord).Holds q id ↔
      s.Holds q id := by
    unfold FileEdit.cleared
    cases hrecord : file.hasRecord with
    | true => exact Iff.rfl
    | false => exact holds_cleared hsynced hfile hrecord q id
  -- an entity to be embedded has an entry just if the file had it
  have hagain : (file.fresh.map (·.id)).filter
        (FileEdit.cleared s file.path file.hasRecord).isDerived =
      (file.fresh.map (·.id)).filter file.previousIds.contains := by
    apply List.filter_congr
    intro id hid
    have hcurrent := ((hdivided.mem_fresh id).mp hid).1
    rw [Bool.eq_iff_iff, isDerived_iff, Std.ExtTreeSet.contains_iff_mem,
      ← holds_previous hsynced hfile]
    constructor
    · rintro ⟨q, hq⟩
      have hheld := (hcleared q id).mp hq
      by_cases hpath : q = file.path
      · exact hpath ▸ hheld
      · exact absurd hheld (halone id hcurrent q hpath)
    · exact fun hheld => ⟨file.path, (hcleared _ id).mpr hheld⟩
  have hsize := FileEdit.size_update s file.path file.previousIds file.currentIds
    (RunState.withVectors file.fresh vectors) file.hasRecord (hids ▸ hdivided.nodup_fresh)
    fun e he => hfree _ (hfile.fresh _ (withVectors_entity _ _ e he))
  rw [hids, hagain, hdivided.length_again] at hsize
  exact hsize

end MemoryStore

namespace RunState

/-- The ids of some files are theirs alone: no curated entry holds one, none is recorded for another
path, and no other file has one. -/
structure Owned (m : Manifest) (s : MemoryStore) (files : List PreparedFile) : Prop where
  curated : ∀ file ∈ files, ∀ id ∈ file.currentIds, s.isCurated id = false
  recorded : ∀ file ∈ files, ∀ id ∈ file.currentIds, ∀ path r, path ≠ file.path →
    m.get? path = some r → id ∉ r.entityIds
  minted : ∀ file ∈ files, ∀ id ∈ file.currentIds, ∀ other ∈ files, other.path ≠ file.path →
    id ∉ other.currentIds

theorem Owned.subset {m : Manifest} {s : MemoryStore} {files files' : List PreparedFile}
    (h : Owned m s files') (hfiles : files ⊆ files') : Owned m s files where
  curated file hfile := h.curated file (hfiles hfile)
  recorded file hfile := h.recorded file (hfiles hfile)
  minted file hfile id hid other hother := h.minted file (hfiles hfile) id hid other (hfiles hother)

theorem Owned.congr {m : Manifest} {s s' : MemoryStore} {files : List PreparedFile}
    (h : Owned m s files) (hs : ∀ id, s'.isCurated id = s.isCurated id) : Owned m s' files where
  curated file hfile id hid := (hs id).trans (h.curated file hfile id hid)
  recorded := h.recorded
  minted := h.minted

/-- Some updates lead from entries `s` with the records `m` to entries `t` with the records `m'`:
the two stay synced, and the number of derived entries is accounted for. -/
structure Updated (force : Bool) (m : Manifest) (s : MemoryStore) (updates : List Update)
    (t : MemoryStore) (m' : Manifest) : Prop where
  synced : t.Synced m'
  curated : ∀ id, t.isCurated id = s.isCurated id
  untouched : ∀ path, (∀ u ∈ updates, u.file.path ≠ path) → m'.get? path = m.get? path
  ids : ∀ path r, m'.get? path = some r → ∀ id ∈ r.entityIds,
    (∃ r', m.get? path = some r' ∧ id ∈ r'.entityIds) ∨
      ∃ u ∈ updates, u.file.path = path ∧ id ∈ u.file.currentIds
  size : t.derivedSize + (Update.total updates).removed +
      (if force then (Update.total updates).unchanged else 0) =
    s.derivedSize + (Update.total updates).added

theorem Updated.start {force : Bool} {m : Manifest} {s : MemoryStore} (h : s.Synced m) :
    Updated force m s [] s m where
  synced := h
  curated _ := rfl
  untouched _ _ := rfl
  ids _ r hr _ hid := .inl ⟨r, hr, hid⟩
  size := by cases force <;> rfl

theorem Updated.add {force : Bool} {m m' : Manifest} {s t : MemoryStore} {updates : List Update}
    {file : PreparedFile} {entities : List Entity} (h : Updated force m s updates t m')
    (hfile : file.Faithful m) (hdivided : file.Divided force entities)
    (hnew : ∀ u ∈ updates, u.file.path ≠ file.path)
    (howned : Owned m s (updates.map (·.file) ++ [file])) {vectors : List Embedding}
    (hvectors : file.fresh.length ≤ vectors.length) (plan : RunPlan) (now : Duration) :
    Updated force m s (updates ++ [⟨file, (file.edit vectors).stats t⟩])
      (t.edited (file.edit vectors).edits) (m'.recordIndexed (recordOf plan file) now) := by
  have hlast : file ∈ updates.map (·.file) ++ [file] :=
    List.mem_append_right _ List.mem_cons_self
  have hfile' : file.Faithful m' := hfile.congr (h.untouched file.path hnew)
  have hfree : ∀ id ∈ file.currentIds, t.isCurated id = false :=
    fun id hid => (h.curated id).trans (howned.curated file hlast id hid)
  -- whatever another path holds was recorded for it before, or comes of its update
  have halone : ∀ id ∈ file.currentIds, ∀ q, q ≠ file.path → ¬ t.Holds q id := by
    intro id hid q hq hheld
    obtain ⟨r, hr, hmem⟩ := (MemoryStore.agrees_iff t m' q).mp (h.synced q) id |>.mp hheld
    rcases h.ids q r hr id hmem with ⟨r', hr', hmem'⟩ | ⟨u, hu, rfl, hmem'⟩
    · exact howned.recorded file hlast id hid q r' hq hr' hmem'
    · have hother := List.mem_append_left [file] (List.mem_map_of_mem (f := (·.file)) hu)
      exact howned.minted file hlast id hid u.file hother hq hmem'
  obtain ⟨hlocal, hown⟩ := MemoryStore.update_holds h.synced hfile' hfree halone vectors hvectors
  have hrecord (path : String) : (m'.recordIndexed (recordOf plan file) now).get? path =
      if file.path = path then some (recordOf plan file) else m'.get? path :=
    Manifest.get?_recordIndexed ..
  constructor
  · exact h.synced.recorded hlocal hown plan now
  · exact fun id => (MemoryStore.isCurated_edited _ _ id).trans (h.curated id)
  · intro path hpath
    have hother : file.path ≠ path := hpath _ (List.mem_append_right _ List.mem_cons_self)
    rw [hrecord, if_neg hother]
    exact h.untouched path fun u hu => hpath u (List.mem_append_left _ hu)
  · intro path r hr id hid
    rw [hrecord] at hr
    split at hr
    · rename_i hpath
      cases hr
      exact .inr ⟨_, List.mem_append_right _ List.mem_cons_self, hpath,
        Std.ExtTreeSet.mem_toList.mp hid⟩
    · rcases h.ids path r hr id hid with hbefore | ⟨u, hu, hpath, hmem⟩
      · exact .inl hbefore
      · exact .inr ⟨u, List.mem_append_left _ hu, hpath, hmem⟩
  · have hbefore := h.size
    have hedit := MemoryStore.size_edit h.synced hfile' hdivided hfree halone hvectors
    rw [Update.total_concat]
    simp only [WriteStats.merge]
    cases force with
    | true =>
      rw [if_pos rfl] at hbefore hedit ⊢
      omega
    | false =>
      rw [if_neg Bool.false_ne_true] at hbefore hedit ⊢
      omega

/-! ### Deletions and renames -/

section Structural

/-- Deletions and renames of some paths lead from a state to another: store and records stay synced,
and what is removed is counted. -/
structure Shifted (paths : List String) (s t : RunState MemoryStore) : Prop where
  synced : t.world.store.Synced t.manifest
  curated : ∀ id, t.world.store.isCurated id = s.world.store.isCurated id
  records : ∀ p ∉ paths, t.manifest.get? p = s.manifest.get? p
  size : t.world.store.derivedSize + t.result.stats.removed =
    s.world.store.derivedSize + s.result.stats.removed
  added : t.result.stats.added = s.result.stats.added
  unchanged : t.result.stats.unchanged = s.result.stats.unchanged
  optimizer : t.optimizer = s.optimizer

variable {paths : List String} {s t u : RunState MemoryStore}

theorem Shifted.start (h : s.world.store.Synced s.manifest) : Shifted paths s s where
  synced := h
  curated _ := rfl
  records _ _ := rfl
  size := rfl
  added := rfl
  unchanged := rfl
  optimizer := rfl

theorem Shifted.congr (h : Shifted paths s t) (hstore : u.world.store = t.world.store)
    (hmanifest : u.manifest = t.manifest) (hstats : u.result.stats = t.result.stats)
    (hoptimizer : u.optimizer = t.optimizer) : Shifted paths s u where
  synced := by
    rw [hstore, hmanifest]
    exact h.synced
  curated id := by
    rw [hstore]
    exact h.curated id
  records p hp := by
    rw [hmanifest]
    exact h.records p hp
  size := by
    rw [hstore, hstats]
    exact h.size
  added := hstats ▸ h.added
  unchanged := hstats ▸ h.unchanged
  optimizer := hoptimizer.trans h.optimizer

/-- An update that adds nothing to the store, and counts what it removes. -/
theorem Shifted.edit {before : WriteStats} (h : Shifted paths s (t.addStats before))
    (edit : FileEdit) (hnone : (edit.stats t.world.store).added = 0 ∧
      (edit.stats t.world.store).unchanged = 0)
    (hsize : (t.world.store.edited edit.edits).derivedSize +
      (edit.stats t.world.store).removed = t.world.store.derivedSize)
    (w : World MemoryStore) (m : Manifest) (hstore : w.store = t.world.store.edited edit.edits)
    (hsynced : (t.world.store.edited edit.edits).Synced m)
    (hrecords : ∀ p ∉ paths, m.get? p = t.manifest.get? p) :
    Shifted paths s ({ t with world := w, manifest := m }.addStats
      (before.merge (edit.stats t.world.store))) := by
  -- what was found before is added to the counts first, so the counts of the edit come on top
  have hstats : ({ t with world := w, manifest := m }.addStats
      (before.merge (edit.stats t.world.store))).result.stats =
      (t.addStats before).result.stats.merge (edit.stats t.world.store) :=
    (WriteStats.merge_assoc t.result.stats before _).symm
  constructor
  · show w.store.Synced m
    rw [hstore]
    exact hsynced
  · intro id
    show w.store.isCurated id = _
    rw [hstore, MemoryStore.isCurated_edited]
    exact h.curated id
  · exact fun p hp => (hrecords p hp).trans (h.records p hp)
  · have hbefore : t.world.store.derivedSize + (t.addStats before).result.stats.removed =
        s.world.store.derivedSize + s.result.stats.removed := h.size
    show w.store.derivedSize + _ = _
    rw [hstats, hstore]
    simp only [WriteStats.merge]
    omega
  · rw [hstats]
    exact (congrArg (_ + ·) hnone.1).trans h.added
  · rw [hstats]
    exact (congrArg (_ + ·) hnone.2).trans h.unchanged
  · exact h.optimizer

variable (setting : RunSetting MemoryStore) (hstore : setting.store = MemoryStore.calls)
  (plan : RunPlan) {found : WriteStats}

include hstore

theorem forget_shifted {path : String} (hpath : path ∈ paths)
    (h : Shifted paths s (t.addStats found)) :
    Runs (forget setting path) t (fun stats u => Shifted paths s (u.addStats (found.merge stats)))
      fun _ _ => True := by
  rw [runs_forget, hstore]
  apply runs_imp _ _ _ (FileEdit.reach_performs setting.env (.delete path) t.world) ?_
    fun _ _ _ => trivial
  rintro _ w ⟨rfl, hw⟩
  apply h.edit (.delete path) ⟨rfl, rfl⟩ (FileEdit.size_delete _ path) w _ hw
  · exact MemoryStore.Synced.clear h.synced path _
  · intro p hp
    have hne : path ≠ p := fun heq => hp (heq ▸ hpath)
    rw [Manifest.get?_removeFile, if_neg hne]

theorem relocate_shifted {source target : String} (hsource : source ∈ paths)
    (htarget : target ∈ paths) {r : FileRecord} (hr : t.manifest.get? source = some r)
    (h : Shifted paths s (t.addStats found)) :
    Runs (relocate setting plan source target) t
      (fun stats u => Shifted paths s (u.addStats (found.merge stats))) fun _ _ => True := by
  rw [runs_relocate, hstore]
  apply runs_imp _ _ _ (FileEdit.reach_performs setting.env
    (.rename source target (t.manifest.get? target).isSome) t.world) ?_ fun _ _ _ => trivial
  rintro _ w ⟨rfl, hw⟩
  apply h.edit (.rename source target _) ⟨rfl, rfl⟩ (FileEdit.size_rename _ source target _) w _ hw
  · exact MemoryStore.Synced.relocated h.synced plan source target r hr _
  · intro p hp
    have hne : source ≠ p ∧ target ≠ p :=
      ⟨fun heq => hp (heq ▸ hsource), fun heq => hp (heq ▸ htarget)⟩
    exact get?_relocated_other t.manifest plan source target _ (by rw [hr]; rfl) p hne.1 hne.2

theorem applyStructural_shifted (changes : ChangeSet) (hs : s.world.store.Synced s.manifest) :
    Runs (applyStructural setting plan changes) s
      (fun _ t => Shifted (structuralPaths changes) s t) fun _ _ => True := by
  have hmem := Shape.mem_structuralPaths changes
  apply applyStructural_found setting plan changes
    (fun found rest t => Shifted (structuralPaths changes) s (t.addStats found.stats) ∧
      ∀ p ∈ rest, p ∈ structuralPaths changes)
    (fun found rest t => Shifted (structuralPaths changes) s (t.addStats found.stats) ∧
      ∀ e ∈ rest, e.1 ∈ structuralPaths changes ∧ e.2 ∈ structuralPaths changes)
  · exact ⟨(Shifted.start hs).congr rfl rfl rfl rfl, fun p hp => (hmem p).mpr (.inl hp)⟩
  · rintro found path rest t ⟨ht, hrest⟩
    apply runs_imp _ _ _ (forget_shifted setting hstore (hrest path List.mem_cons_self) ht)
    · exact fun _ _ hu => ⟨hu, fun p hp => hrest p (List.mem_cons_of_mem _ hp)⟩
    · exact fun _ _ h => h
  · rintro found t ⟨ht, _⟩
    exact ⟨ht, fun e he => ⟨(hmem e.1).mpr (.inr ⟨e, he, .inl rfl⟩),
      (hmem e.2).mpr (.inr ⟨e, he, .inr rfl⟩)⟩⟩
  · rintro found source target rest t ⟨ht, hrest⟩
    obtain ⟨hsource, htarget⟩ := hrest _ List.mem_cons_self
    have hrest' := fun e he => hrest e (List.mem_cons_of_mem _ he)
    apply applyRename_found setting plan
    · exact fun _ => ⟨ht, hrest'⟩
    · exact fun _ _ _ => ⟨ht.congr rfl rfl rfl rfl, hrest'⟩
    · intro r _ _ hr _ _
      exact runs_imp _ _ _ (relocate_shifted setting hstore plan hsource htarget hr ht)
        (fun _ _ hu => ⟨hu, hrest'⟩) fun _ _ h => h
    · intro _ _ _ _ _ _
      exact runs_imp _ _ _ (forget_shifted setting hstore hsource ht)
        (fun _ _ hu => ⟨hu, hrest'⟩) fun _ _ h => h
  · rintro found t ⟨ht, _⟩
    apply runs_imp _ _ _ (commitBatch_touches setting found.touched t) ?_ fun _ _ _ => trivial
    rintro _ u ⟨_, hstore', hmanifest, hoptimizer, hresult⟩
    have hstats : (u.restructured found).result.stats = (t.addStats found.stats).result.stats := by
      show (u.addStats found.stats).result.stats = _
      rw [stats_addStats, hresult]
      rfl
    exact Shifted.congr ht hstore' hmanifest hstats hoptimizer

end Structural

/-! ### Batches -/

section Batches

variable {setting : RunSetting MemoryStore} {plan : RunPlan} {m : Manifest}

structure Update.Made (setting : RunSetting MemoryStore) (force : Bool) (m : Manifest)
    (entities : List Entity) (u : Update) : Prop where
  found : ∃ d path content modified found,
    prepare setting force d (.ofPath m path) = .ready u.file ∧
      d.readFile (Path.join setting.root path) = .ok (content, modified) ∧
      setting.extractor.find path content = .ok found ∧
      entities = mintEntities path u.file.lineage found setting.config.variants
  made : ∃ vectors w w', u.file.fresh.length ≤ vectors.length ∧
    ((World.reach setting.env setting.store).updateFile u.file.path u.file.previousIds
      u.file.currentIds (withVectors u.file.fresh vectors) u.file.hasRecord).run w =
        (.ok u.stats, w')

/-- Every entity is counted as added or as unchanged, and as both if it is embedded although the
file had it. -/
theorem Update.Made.count {force : Bool} {entities : List Entity} {u : Update}
    (h : u.Made setting force m entities) (hstore : setting.store = MemoryStore.calls) :
    u.stats.added + u.stats.unchanged =
      entities.length + if force then u.stats.unchanged else 0 := by
  obtain ⟨d, path, _, _, _, hprepared, hread, hfound, rfl⟩ := h.found
  obtain ⟨_, _, _, hread', hfound', hdivided⟩ := prepare_divided hprepared
  -- the entities are the ones that the division is about: content and extraction are the same
  cases hread.symm.trans ((WorkItem.ofPath_path m path) ▸ hread')
  cases hfound.symm.trans ((WorkItem.ofPath_path m path) ▸ hfound')
  obtain ⟨vectors, w, w', hvectors, hran⟩ := h.made
  rw [hstore] at hran
  have hstats : u.stats = (u.file.edit vectors).stats w.store :=
    (runs_ok _ _ _ (FileEdit.reach_performs setting.env (u.file.edit vectors) w) hran).1
  obtain ⟨hadded, hunchanged⟩ := u.file.stats_edit hvectors w.store
  have hall := hdivided.length_entities
  rw [WorkItem.ofPath_path] at hall
  rw [hstats, hadded, hunchanged]
  exact hall

/-- The accounts of a run that has made some updates of files, by the records `m` before them, and
has brought one store to another. An entity that is embedded although its file had it counts as
added and as unchanged. -/
structure Accounts (setting : RunSetting MemoryStore) (force : Bool) (m : Manifest)
    (updates : List Update) (before after : MemoryStore) (result : IndexResult) : Prop where
  files : ∀ u ∈ updates, ∃ entities, u.Made setting force m entities ∧
    u.stats.added + u.stats.unchanged = entities.length + if force then u.stats.unchanged else 0
  added : result.entitiesAdded = (Update.total updates).added
  unchanged : result.entitiesUnchanged = (Update.total updates).unchanged
  entries : Owned m before (updates.map (·.file)) →
    after.derivedSize + result.entitiesRemoved +
        (if force then result.entitiesUnchanged else 0) =
      before.derivedSize + result.entitiesAdded

theorem Accounts.congr {force : Bool} {updates : List Update} {before after after' : MemoryStore}
    {result result' : IndexResult} (h : Accounts setting force m updates before after result)
    (hstats : result'.stats = result.stats) (hstore : after' = after) :
    Accounts setting force m updates before after' result' where
  files := h.files
  added := (congrArg WriteStats.added hstats).trans h.added
  unchanged := (congrArg WriteStats.unchanged hstats).trans h.unchanged
  entries howned := by
    have hentries := h.entries howned
    unfold IndexResult.stats at hstats
    simp only [WriteStats.mk.injEq] at hstats
    rw [hstore, hstats.1, hstats.2.1, hstats.2.2.2]
    exact hentries

end Batches

end RunState

namespace RunSetting

open RunState

end RunSetting

namespace RunState

section Paired

end Paired

section Anew

end Anew

end RunState

end CodeIndex
