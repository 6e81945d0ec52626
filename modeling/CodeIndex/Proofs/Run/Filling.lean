import CodeIndex.Proofs.Run.Accounting
import CodeIndex.Proofs.Run.Draining

namespace CodeIndex

open StateDir

theorem withVectors_mem (entities : List Entity) (vectors : List Embedding)
    (hlength : entities.length ≤ vectors.length) (id : String) :
    (∃ e ∈ RunState.withVectors entities vectors, e.entity.id = id) ↔
      ∃ e ∈ entities, e.id = id := by
  unfold RunState.withVectors
  constructor
  · rintro ⟨e, he, rfl⟩
    obtain ⟨⟨entity, vector⟩, hzip, rfl⟩ := List.mem_map.mp he
    exact ⟨entity, (List.of_mem_zip hzip).1, rfl⟩
  · rintro ⟨e, he, rfl⟩
    have hfst : (entities.zip vectors).map Prod.fst = entities := List.map_fst_zip hlength
    rw [← hfst] at he
    obtain ⟨⟨entity, vector⟩, hzip, rfl⟩ := List.mem_map.mp he
    exact ⟨⟨entity, vector⟩, List.mem_map.mpr ⟨_, hzip, rfl⟩, rfl⟩

theorem withVectors_entity (entities : List Entity) (vectors : List Embedding)
    (e : EmbeddedEntity) (h : e ∈ RunState.withVectors entities vectors) : e.entity ∈ entities := by
  obtain ⟨⟨entity, vector⟩, hzip, rfl⟩ := List.mem_map.mp h
  exact (List.of_mem_zip hzip).1

namespace MemoryStore

variable {s : MemoryStore} {m m' : Manifest} {file : PreparedFile}

section Update

variable (hsynced : s.Synced m) (hfile : file.Faithful m)
  (hfree : ∀ id ∈ file.currentIds, s.isCurated id = false)
  (halone : ∀ id ∈ file.currentIds, ∀ q, q ≠ file.path → ¬ s.Holds q id)
  (vectors : List Embedding) (hvectors : file.fresh.length ≤ vectors.length)

include hsynced hfile

theorem holds_previous (id : String) : s.Holds file.path id ↔ id ∈ file.previousIds := by
  rw [hfile.previous]
  exact (agrees_iff s m file.path).mp (hsynced file.path) id

theorem holds_cleared (hrecord : file.hasRecord = false) (q id : String) :
    ((StoreEdit.clear file.path).apply s).Holds q id ↔ s.Holds q id := by
  rw [holds_clear]
  refine ⟨fun h => h.1, fun h => ⟨h, ?_⟩⟩
  rintro rfl
  obtain ⟨r, hr, _⟩ := (hfile.previous id).mp ((holds_previous hsynced hfile id).mp h)
  rw [hfile.recorded, hr] at hrecord
  cases hrecord

include hfree halone hvectors

/-- The write of its new entities leaves a file with its ids, old and new. -/
theorem holds_written (q id : String) :
    ((StoreEdit.write (RunState.withVectors file.fresh vectors)).apply s).Holds q id ↔
      s.Holds q id ∨ q = file.path ∧ id ∈ file.currentIds := by
  have hcurrent : ∀ e ∈ RunState.withVectors file.fresh vectors, e.entity.id ∈ file.currentIds :=
    fun e he => hfile.fresh _ (withVectors_entity _ _ e he)
  rw [s.holds_write (RunState.withVectors file.fresh vectors) file.path q id
    (fun e he => hfile.path _ (withVectors_entity _ _ e he)) fun e he => hfree _ (hcurrent e he)]
  constructor
  · rintro (⟨hq, e, he, rfl⟩ | ⟨_, h⟩)
    · exact .inr ⟨hq, hcurrent e he⟩
    · exact .inl h
  · intro h
    by_cases hnew : ∃ e ∈ RunState.withVectors file.fresh vectors, e.entity.id = id
    · -- an id of the file is held by no other path
      obtain ⟨e, he, rfl⟩ := hnew
      refine .inl ⟨Decidable.byContradiction fun hq => ?_, e, he, rfl⟩
      rcases h with h | ⟨hq', _⟩
      · exact halone _ (hcurrent e he) q hq h
      · exact hq hq'
    · refine .inr ⟨fun e he heq => hnew ⟨e, he, heq⟩, ?_⟩
      rcases h with h | ⟨rfl, hid⟩
      · exact h
      · rcases hfile.current id hid with h | h
        · exact (holds_previous hsynced hfile id).mpr h
        · exact absurd ((withVectors_mem _ _ hvectors id).mpr h) hnew

/-- Once the stale ids are dropped, a file holds those that are current. -/
theorem write_holds :
    StoreEdit.Local [file.path] s (.write (RunState.withVectors file.fresh vectors) ::
      if (VectorStore.staleIds file.previousIds file.currentIds).isEmpty then []
      else [.drop (VectorStore.staleIds file.previousIds file.currentIds)]) ∧
    ∀ id, (s.edited (.write (RunState.withVectors file.fresh vectors) ::
      if (VectorStore.staleIds file.previousIds file.currentIds).isEmpty then []
      else [.drop (VectorStore.staleIds file.previousIds file.currentIds)])).Holds file.path id ↔
        id ∈ file.currentIds := by
  have hwritten := holds_written hsynced hfile hfree halone vectors hvectors
  have hprevious := holds_previous hsynced hfile
  constructor
  · -- neither the write nor the drop is about another path
    refine ⟨fun q hq id => ?_, StoreEdit.local_drop _ _ fun q hq id => ?_⟩
    · have hq' : q ≠ file.path := fun h => hq (h ▸ List.mem_cons_self)
      simp [hwritten, hq']
    · have hq' : q ≠ file.path := fun h => hq (h ▸ List.mem_cons_self)
      rw [holds_drop, hwritten]
      refine ⟨fun h => h.1, fun h => ⟨h, fun hin => ?_⟩⟩
      -- an id that another path holds was not recorded for this one
      have hrecorded := (hprevious id).mpr ((VectorStore.mem_staleIds _ _ id).mp hin).1
      rcases h with h | ⟨hsame, _⟩
      · exact hq' (holds_unique s q file.path id h hrecorded)
      · exact hq' hsame
  · intro id
    show (((StoreEdit.write _).apply s).edited _).Holds file.path id ↔ _
    rw [edited_drop, holds_drop, hwritten, hprevious, VectorStore.mem_staleIds]
    constructor
    · rintro ⟨h | h, hkept⟩
      · exact Decidable.byContradiction fun hout => hkept ⟨h, hout⟩
      · exact h.2
    · exact fun h => ⟨.inr ⟨rfl, h⟩, fun hout => hout.2 h⟩

/-- The update of a file leaves the entries of the others alone and gives the file its own. -/
theorem update_holds :
    StoreEdit.Local [file.path] s (World.updateEdits file.path file.previousIds file.currentIds
      (RunState.withVectors file.fresh vectors) file.hasRecord) ∧
    ∀ id, (s.edited (World.updateEdits file.path file.previousIds file.currentIds
      (RunState.withVectors file.fresh vectors) file.hasRecord)).Holds file.path id ↔
        id ∈ file.currentIds := by
  unfold World.updateEdits
  cases hrecord : file.hasRecord with
  | true => exact write_holds hsynced hfile hfree halone vectors hvectors
  | false =>
    have hcleared := holds_cleared hsynced hfile hrecord
    have hsynced' : ((StoreEdit.clear file.path).apply s).Synced m := fun p => by
      rw [agrees_iff]
      exact fun id => (hcleared p id).trans ((agrees_iff s m p).mp (hsynced p) id)
    obtain ⟨hlocal, hids⟩ := write_holds hsynced' hfile
      (fun id hid => (isCurated_apply _ _ _).trans (hfree id hid))
      (fun id hid q hq h => halone id hid q hq ((hcleared q id).mp h)) vectors hvectors
    exact ⟨⟨fun q _ id => hcleared q id, hlocal⟩, hids⟩

end Update

/-- A file that holds its ids is in step with its record; the others stay in step with theirs. -/
theorem Synced.recorded (hsynced : s.Synced m) {edits : List StoreEdit}
    (hlocal : StoreEdit.Local [file.path] s edits)
    (hown : ∀ id, (s.edited edits).Holds file.path id ↔ id ∈ file.currentIds) (plan : RunPlan)
    (now : Duration) :
    (s.edited edits).Synced (m.recordIndexed (RunState.recordOf plan file) now) := by
  intro q
  rw [agrees_iff]
  intro id
  have hpath : (RunState.recordOf plan file).path = file.path := rfl
  rw [Manifest.get?_recordIndexed, hpath]
  by_cases hq : file.path = q
  · rw [if_pos hq, ← hq]
    refine (hown id).trans ⟨fun h => ⟨_, rfl, Std.ExtTreeSet.mem_toList.mpr h⟩, ?_⟩
    rintro ⟨r, hr, hmem⟩
    cases hr
    exact Std.ExtTreeSet.mem_toList.mp hmem
  · rw [if_neg hq]
    refine (StoreEdit.local_holds _ _ hlocal q ?_ id).trans ((agrees_iff _ _ q).mp (hsynced q) id)
    rw [List.mem_singleton]
    exact Ne.symm hq

end MemoryStore

section Minted

variable {σ : Type} (setting : RunSetting σ) (force : Bool) (home : Location) (d : Disk)
  (m : Manifest) (paths : List String)

/-- An id may be minted for one of some paths, by the records of a manifest and what a run reads
there, whatever it has written to its state directory by then. -/
def Minted (p id : String) : Prop :=
  p ∈ paths ∧ ∃ d' file, Same home d d' ∧
    prepare setting force d' (WorkItem.ofPath m p) = .ready file ∧ id ∈ file.currentIds

structure MintsApart (s : MemoryStore) : Prop where
  curated : ∀ p id, Minted setting force home d m paths p id → s.isCurated id = false
  recorded : ∀ p id, Minted setting force home d m paths p id →
    ∀ q r, q ≠ p → m.get? q = some r → id ∉ r.entityIds
  minted : ∀ p id, Minted setting force home d m paths p id →
    ∀ q, q ≠ p → ¬ Minted setting force home d m paths q id

end Minted

namespace RunState

variable (setting : RunSetting MemoryStore) (plan : RunPlan) (home : Location)
  (base : List (Moment MemoryStore)) (s₀ : RunState MemoryStore) (m : Manifest)
  (paths : List String)

/-- A state between the files of a run: the store is synced with the records, which are those of
`m` but for the files that were written. -/
structure Filling (left : List String) (t : RunState MemoryStore) : Prop where
  since : Since home s₀ t
  storable : t.manifest.Storable
  synced : t.world.store.Synced t.manifest
  curated : ∀ id, t.world.store.isCurated id = s₀.world.store.isCurated id
  sound : t.optimizer.Sound
  untouched : ∀ q ∈ left, t.manifest.get? q = m.get? q
  ids : ∀ q r, t.manifest.get? q = some r → ∀ id ∈ r.entityIds,
    (∃ r', m.get? q = some r' ∧ id ∈ r'.entityIds) ∨
      Minted setting plan.force home s₀.world.disk m paths q id

def Halted (e : IndexError) (t : RunState MemoryStore) : Prop :=
  Since home s₀ t ∧ (∃ cause, e = .storeWrite cause) ∧
    ∃ batch saved, World.Accounted setting.stateDir base batch saved t.world

variable {setting plan home base s₀ m paths}

theorem accounted_quiet {batch : List String} {saved : Manifest} {t u : RunState MemoryStore}
    (h : World.Accounted setting.stateDir base batch saved t.world)
    (hq : Quiet setting.env t u) : World.Accounted setting.stateDir base batch saved u.world := by
  have hstore : u.world.store = t.world.store := congrArg Core.store hq.core
  exact h.congr (core_disk hq.core) (congrArg Core.moments hq.core) fun p _ id => by rw [hstore]

theorem Filling.quiet {left : List String} {t u : RunState MemoryStore}
    (h : Filling setting plan home s₀ m paths left t) (hq : Quiet setting.env t u) :
    Filling setting plan home s₀ m paths left u := by
  have hm := core_manifest hq.core
  have hstore : u.world.store = t.world.store := congrArg Core.store hq.core
  refine ⟨hq.since setting h.since, hm ▸ h.storable, ?_, ?_, hq.optimizer h.sound, ?_, ?_⟩
  · rw [hstore, hm]
    exact h.synced
  · rw [hstore]
    exact h.curated
  · rw [hm]
    exact h.untouched
  · rw [hm]
    exact h.ids

/-- A file is written: the others keep what they have, and its entries are those of its record. -/
theorem writeFile_filling (hstill : setting.env.Still) (hstore : setting.store = MemoryStore.calls)
    (hclock : s₀.world.clock.Valid)
    (hmints : MintsApart setting plan.force home s₀.world.disk m paths s₀.world.store)
    (batch : List String) (saved : Manifest) (file : PreparedFile) (vectors : List Embedding)
    (left : List String) (hripe : Ripe setting plan home s₀ m paths file)
    (hbatch : file.path ∈ batch) (hvectors : file.fresh.length ≤ vectors.length)
    (hleft : file.path ∉ left) (t : RunState MemoryStore)
    (ht : Filling setting plan home s₀ m paths (file.path :: left) t)
    (haccounted : World.Accounted setting.stateDir base batch saved t.world) :
    Runs (writeFile setting plan file vectors) t
      (fun _ u => Filling setting plan home s₀ m paths left u ∧
        World.Accounted setting.stateDir base batch saved u.world)
      (Halted setting home base s₀) := by
  obtain ⟨hin, d, hsame, hprepared⟩ := hripe
  have hfaithful := (prepare_faithful setting plan.force _ m file.path file hprepared).2
  have huntouched := ht.untouched file.path List.mem_cons_self
  have hfile : file.Faithful t.manifest := hfaithful.congr huntouched
  have hminted (id : String) (hid : id ∈ file.currentIds) :
      Minted setting plan.force home s₀.world.disk m paths file.path id :=
    ⟨hin, d, file, hsame, hprepared, hid⟩
  -- no other path holds an id of this file, for all it holds is recorded or minted
  have halone : ∀ id ∈ file.currentIds, ∀ q, q ≠ file.path → ¬ t.world.store.Holds q id := by
    intro id hid q hq hheld
    obtain ⟨r, hr, hmem⟩ :=
      (MemoryStore.agrees_iff t.world.store t.manifest q).mp (ht.synced q) id |>.mp hheld
    rcases ht.ids q r hr id hmem with ⟨r', hr', hmem'⟩ | hother
    · exact hmints.recorded _ id (hminted id hid) q r' hq hr' hmem'
    · exact hmints.minted _ id (hminted id hid) q hq hother
  obtain ⟨hlocal, hown⟩ := MemoryStore.update_holds ht.synced hfile
    (fun id hid => by rw [ht.curated]; exact hmints.curated _ id (hminted id hid)) halone vectors
    hvectors
  have hlocal' : StoreEdit.Local batch t.world.store (World.updateEdits file.path file.previousIds
      file.currentIds (withVectors file.fresh vectors) file.hasRecord) :=
    StoreEdit.local_mono (fun p hp => (List.mem_singleton.mp hp).symm ▸ hbatch) _ _ hlocal
  rw [runs_writeFile, hstore]
  apply runs_imp _ _ _ (World.makes_updateFile hstill file.path file.previousIds file.currentIds
    (withVectors file.fresh vectors) file.hasRecord)
  · rintro _ w ⟨rfl, _⟩
    have hcalled := World.performed_called t.world (World.updateEdits file.path file.previousIds
      file.currentIds (withVectors file.fresh vectors) file.hasRecord)
    have hclock' := World.unixTime_storable t.world (ht.since.clock hclock)
    have hsame : (t.world.performed (World.updateEdits file.path file.previousIds
        file.currentIds (withVectors file.fresh vectors) file.hasRecord)).clock =
        t.world.clock := by
      obtain ⟨_, _, _, heq⟩ := hcalled
      rw [heq]
    refine ⟨⟨ht.since.called hcalled _ (Manifest.keyed_recordIndexed _ _ _)
      fun hnow hs => hs.recordIndexed _ hfaithful.time _ hnow, ?_, ?_, ?_, ht.sound, ?_, ?_⟩,
      haccounted.performed _ hlocal'⟩
    · apply ht.storable.recordIndexed _ hfaithful.time
      unfold World.unixTime at hclock' ⊢
      rw [hsame]
      exact hclock'
    · show (World.store (t.world.performed _)).Synced _
      rw [World.performed_store]
      exact ht.synced.recorded hlocal hown plan _
    · intro id
      show (World.store (t.world.performed _)).isCurated id = _
      rw [World.performed_store]
      exact (MemoryStore.isCurated_edited _ _ id).trans (ht.curated id)
    · intro q hq
      have hne : file.path ≠ q := fun h => hleft (h ▸ hq)
      show (t.manifest.recordIndexed _ _).get? q = _
      rw [Manifest.get?_recordIndexed]
      show (if file.path = q then _ else _) = _
      rw [if_neg hne]
      exact ht.untouched q (List.mem_cons_of_mem _ hq)
    · intro q r hr id hid
      rw [Manifest.get?_recordIndexed] at hr
      split at hr
      · rename_i heq
        cases hr
        have hq : file.path = q := heq
        exact .inr (hq ▸ hminted id (Std.ExtTreeSet.mem_toList.mp hid))
      · exact ht.ids q r hr id hid
  · rintro e w hstopped
    refine ⟨ht.since.called hstopped.called _ id fun _ hs => hs, ⟨e, rfl⟩, batch, saved, ?_⟩
    exact haccounted.stopped hlocal' hstopped

/-- The end of a batch saves a manifest that the store is synced with. -/
theorem commitBatch_accounted (hstill : setting.env.Still) (files batch : List String)
    (saved : Manifest) (t : RunState MemoryStore) (hready : Ready setting.stateDir home t.world.disk)
    (hstorable : t.manifest.Storable) (hsynced : t.world.store.Synced t.manifest)
    (h : World.Accounted setting.stateDir base batch saved t.world) :
    Runs (commitBatch setting files) t
      (fun _ u => World.Accounted setting.stateDir base [] t.manifest u.world)
      (fun _ _ => False) := by
  rw [runs_commitBatch]
  apply runs_imp _ _ _ (World.save_saved setting.env hstill Manifest.fileName
    t.manifest.fileText t.world hready (by decide))
  · intro _ w hw
    have hmanifest := h.savedManifest hready t.manifest hstorable (fun p _ => hsynced p) hw
    have hready' := hready.of_same hw.same
    apply runs_imp _ _ _ (World.save_saved setting.env hstill Checkpoint.fileName _ w hready'
      (by decide))
    · intro _ w' hw'
      have hcheckpoint := hmanifest.savedCheckpoint hready' hw'
      refine hcheckpoint.mark .batchSaved [] (fun _ _ _ _ => rfl) fun p _ => ?_
      obtain ⟨disk, moments, heq⟩ := hw.rest
      obtain ⟨disk', moments', heq'⟩ := hw'.rest
      rw [heq', heq]
      exact hsynced p
    · exact fun _ _ h => h
  · exact fun _ _ h => h

/-- The store is synced with the records between two batches, and within one it is at the paths
outside. -/
theorem filling_carried (base : List (Moment MemoryStore)) (hstill : setting.env.Still)
    (hstore : setting.store = MemoryStore.calls)
    (hready : Ready setting.stateDir home s₀.world.disk) (hclock : s₀.world.clock.Valid)
    (hmints : MintsApart setting plan.force home s₀.world.disk m paths s₀.world.store) :
    Carried setting plan home s₀ m paths
      (fun left t => Filling setting plan home s₀ m paths left t ∧
        World.Accounted setting.stateDir base [] t.manifest t.world)
      (fun batch left t => Filling setting plan home s₀ m paths left t ∧
        ∃ saved, World.Accounted setting.stateDir base batch saved t.world)
      (Halted setting home base s₀) where
  same _ _ h := h.1.since.same
  sound _ _ h := h.1.sound
  fewer _ _ _ h hfewer := ⟨⟨h.1.since, h.1.storable, h.1.synced, h.1.curated, h.1.sound,
    fun q hq => h.1.untouched q (hfewer hq), h.1.ids⟩, h.2⟩
  quiet left t u h hquiet := by
    refine ⟨h.1.quiet hquiet, ?_⟩
    rw [core_manifest hquiet.core]
    exact accounted_quiet h.2 hquiet
  take left t pending next _ h := by
    have hlater := since_takePrepared h.1.since pending next
    cases next <;>
      exact ⟨⟨hlater, h.1.storable, h.1.synced, h.1.curated, h.1.sound, h.1.untouched, h.1.ids⟩,
        h.2⟩
  start batch left t u h hquiet := by
    have hbegun : World.Accounted setting.stateDir base batch t.manifest
        (t.begunBatch batch).world :=
      h.2.mark (.batchBegun batch) _ (fun _ _ _ _ => rfl)
        fun p _ => h.2.outside p List.not_mem_nil
    have hfilling : Filling setting plan home s₀ m paths left (t.begunBatch batch) :=
      ⟨h.1.since.called ⟨_, _, _, rfl⟩ _ id fun _ hs => hs, h.1.storable, h.1.synced, h.1.curated,
        h.1.sound, h.1.untouched, h.1.ids⟩
    exact ⟨hfilling.quiet hquiet, _, accounted_quiet hbegun hquiet⟩
  fail batch path left t e _ h :=
    -- a file that failed keeps its record and its entries
    ⟨⟨since_addFailure h.1.since _ _, h.1.storable, h.1.synced, h.1.curated, h.1.sound,
      fun q hq => h.1.untouched q (List.mem_cons_of_mem _ hq), h.1.ids⟩, h.2⟩
  write batch file vectors left t hripe hbatch hleft hvectors h := by
    obtain ⟨hfilling, saved, hacc⟩ := h
    apply runs_imp _ _ _ (writeFile_filling hstill hstore hclock hmints batch saved file vectors
      left hripe hbatch hvectors hleft t hfilling hacc)
    · exact fun _ u hu => ⟨hu.1, saved, hu.2⟩
    · exact fun _ _ he => he
  commit batch done left t u h hquiet := by
    obtain ⟨hfilling, saved, hacc⟩ := h
    have hu := hfilling.quiet hquiet
    have hready' := hready.of_same hu.since.same
    apply runs_imp _ _ _ (runs_and _ _ _ (commitBatch_committed setting hstill done u hready')
      (commitBatch_accounted hstill done _ _ u hready' hu.storable hu.synced
        (accounted_quiet hacc hquiet)))
    · rintro _ x ⟨hx, hacc'⟩
      have hm : x.manifest = u.manifest := congrArg Core.manifest hx.core
      have hs : x.world.store = u.world.store := congrArg Core.store hx.core
      rw [hm]
      refine ⟨⟨hx.since hu.since, hm ▸ hu.storable, ?_, ?_, ?_, ?_, ?_⟩, hacc'⟩
      · rw [hs, hm]
        exact hu.synced
      · rw [hs]
        exact hu.curated
      · rw [hx.optimizer]
        exact hu.sound
      · rw [hm]
        exact hu.untouched
      · rw [hm]
        exact hu.ids
    · exact fun _ _ h => h.1.elim

end RunState

end CodeIndex
