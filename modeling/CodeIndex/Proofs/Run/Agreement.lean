import CodeIndex.Proofs.Run.Execute
import CodeIndex.Proofs.Run.Filling

/-!
The store and the saved manifest through a whole run. They agree whenever a batch has been saved,
and between two batches they disagree at most at the paths of the one being written.
-/

namespace CodeIndex

open StateDir

def FileRecord.essence (r : FileRecord) : ContentHash × String × List String :=
  (r.contentHash, r.lineage, r.entityIds)

def Manifest.Alike (m m' : Manifest) : Prop :=
  ∀ p, (m.get? p).map FileRecord.essence = (m'.get? p).map FileRecord.essence

def Manifest.Lists (m : Manifest) (p id : String) : Prop :=
  ∃ r, m.get? p = some r ∧ id ∈ r.entityIds

namespace Manifest.Alike

variable {m m' : Manifest}

theorem of_get? (h : ∀ p, m.get? p = m'.get? p) : m.Alike m' := fun p => by rw [h p]

theorem symm (h : m.Alike m') : m'.Alike m := fun p => (h p).symm

theorem record (h : m.Alike m') {p : String} {r : FileRecord} (hr : m.get? p = some r) :
    ∃ r', m'.get? p = some r' ∧ r'.contentHash = r.contentHash ∧ r'.lineage = r.lineage ∧
      r'.entityIds = r.entityIds := by
  have heq := h p
  rw [hr, Option.map_some] at heq
  obtain ⟨r', hr', hessence⟩ := Option.map_eq_some_iff.mp heq.symm
  unfold FileRecord.essence at hessence
  simp only [Prod.mk.injEq] at hessence
  exact ⟨r', hr', hessence⟩

theorem isSome (h : m.Alike m') (p : String) : (m.get? p).isSome = (m'.get? p).isSome := by
  rw [← Option.isSome_map (f := FileRecord.essence), h p, Option.isSome_map]

theorem removeFile (h : m.Alike m') (path : String) (now now' : Duration) :
    (m.removeFile path now).Alike (m'.removeFile path now') := by
  intro p
  rw [get?_removeFile, get?_removeFile]
  split
  · rfl
  · exact h p

theorem renameFile (h : m.Alike m') (source target : String) (commit commit' : Option String)
    (now now' : Duration) :
    (m.renameFile source target commit now).Alike (m'.renameFile source target commit' now') := by
  intro p
  cases hr : m.get? source with
  | none =>
    have hr' : m'.get? source = none := by
      have hnone := h.isSome source
      rw [hr, Option.isSome_none] at hnone
      exact Option.not_isSome_iff_eq_none.mp (by rw [← hnone]; decide)
    unfold Manifest.renameFile
    rw [hr, hr']
    exact h p
  | some r =>
    obtain ⟨r', hr', hhash, hlineage, hids⟩ := h.record hr
    rw [get?_renameFile m source target commit now r hr,
      get?_renameFile m' source target commit' now' r' hr']
    split
    · simp only [Option.map_some, FileRecord.essence, hhash, hlineage, hids]
    · split
      · rfl
      · exact h p

theorem setDiverged (h : m.Alike m') (path : String) (value value' : Bool) :
    (m.setDiverged path value).Alike (m'.setDiverged path value') := by
  have hflag (f : Bool) (r : Option FileRecord) :
      (r.map fun r => { r with diverged := f }).map FileRecord.essence =
        r.map FileRecord.essence := by
    rw [Option.map_map]
    rfl
  intro p
  rw [get?_setDiverged, get?_setDiverged]
  split
  · rw [hflag, hflag]
    exact h p
  · exact h p

theorem relocated (h : m.Alike m') (plan plan' : RunPlan) (source target : String)
    (now now' : Duration) :
    (RunState.relocated m plan source target now).Alike
      (RunState.relocated m' plan' source target now') := by
  unfold RunState.relocated
  apply Alike.setDiverged
  apply Alike.renameFile
  rw [h.isSome target]
  split
  · exact h.removeFile target now now'
  · exact h

theorem settled (m : Manifest) (divergence : HeadDivergence) (now : Duration) :
    (RunState.settled m divergence now).Alike m := by
  unfold RunState.settled
  split
  · intro p
    rw [get?_settleDivergence, Option.map_map]
    rfl
  · exact fun p => rfl

theorem workItem (h : m.Alike m') (p : String) : WorkItem.ofPath m p = WorkItem.ofPath m' p := by
  unfold WorkItem.ofPath
  cases hr : m.get? p with
  | none =>
    have hr' : m'.get? p = none := by
      have hnone := h.isSome p
      rw [hr, Option.isSome_none] at hnone
      exact Option.not_isSome_iff_eq_none.mp (by rw [← hnone]; decide)
    rw [hr']
  | some r =>
    obtain ⟨r', hr', _, hlineage, hids⟩ := h.record hr
    rw [hr']
    dsimp only
    rw [hlineage, hids]

theorem lists (h : m.Alike m') (p id : String) : m.Lists p id ↔ m'.Lists p id := by
  constructor
  · rintro ⟨r, hr, hid⟩
    obtain ⟨r', hr', _, _, hids⟩ := h.record hr
    exact ⟨r', hr', hids ▸ hid⟩
  · rintro ⟨r', hr', hid⟩
    obtain ⟨r, hr, _, _, hids⟩ := h.symm.record hr'
    exact ⟨r, hr, hids ▸ hid⟩

theorem synced (h : m.Alike m') {s : MemoryStore} (hs : s.Synced m) : s.Synced m' :=
  fun p id => (hs p id).trans (h.lists p id)

end Manifest.Alike

namespace Shape

variable (plan plan' : RunPlan) (hashOf : String → Option ContentHash)

def Alike (s s' : Shape) : Prop :=
  s.manifest.Alike s'.manifest ∧ s.reindex = s'.reindex ∧ s.edits = s'.edits

theorem forget_alike {s s' : Shape} (h : s.Alike s') (path : String) :
    (s.forget path).Alike (s'.forget path) :=
  ⟨h.1.removeFile path .zero .zero, h.2.1, congrArg (· ++ [StoreEdit.clear path]) h.2.2⟩

theorem rename_alike {s s' : Shape} (h : s.Alike s') (ends : String × String) :
    (s.rename plan hashOf ends).Alike (s'.rename plan' hashOf ends) := by
  obtain ⟨hm, hreindex, hedits⟩ := h
  unfold rename
  cases hr : s.manifest.get? ends.1 with
  | none =>
    have hr' : s'.manifest.get? ends.1 = none := by
      have hnone := hm.isSome ends.1
      rw [hr, Option.isSome_none] at hnone
      exact Option.not_isSome_iff_eq_none.mp (by rw [← hnone]; decide)
    rw [hr']
    exact ⟨hm, congrArg (· ++ [ends.2]) hreindex, hedits⟩
  | some r =>
    obtain ⟨r', hr', hhash, _, _⟩ := hm.record hr
    rw [hr']
    cases hashOf ends.2 with
    | none => exact ⟨hm, hreindex, hedits⟩
    | some hash =>
      dsimp only
      rw [hhash]
      split
      · refine ⟨hm.relocated plan plan' ends.1 ends.2 .zero .zero, hreindex, ?_⟩
        rw [hedits, hm.isSome]
      · exact ⟨hm.removeFile ends.1 .zero .zero, congrArg (· ++ [ends.2]) hreindex,
          congrArg (· ++ [StoreEdit.clear ends.1]) hedits⟩

/-- What is renamed and what is indexed anew does not depend on the commit that is checked out. -/
theorem ofChanges_alike (changes : ChangeSet) (m : Manifest) :
    (ofChanges plan hashOf changes m).Alike (ofChanges plan' hashOf changes m) := by
  have hdeletions (paths : List String) (s s' : Shape) (h : s.Alike s') :
      (paths.foldl forget s).Alike (paths.foldl forget s') := by
    induction paths generalizing s s' with
    | nil => exact h
    | cons path rest ih => exact ih _ _ (forget_alike h path)
  have hrenames (renames : List (String × String)) (s s' : Shape) (h : s.Alike s') :
      (renames.foldl (rename plan hashOf) s).Alike (renames.foldl (rename plan' hashOf) s') := by
    induction renames generalizing s s' with
    | nil => exact h
    | cons ends rest ih => exact ih _ _ (rename_alike plan plan' hashOf h ends)
  exact hrenames _ _ _ (hdeletions _ _ _ ⟨fun _ => rfl, rfl, rfl⟩)

end Shape

namespace RunSetting

variable {σ : Type} (setting : RunSetting σ)

def restructured (d : Disk) (changes : ChangeSet) (m : Manifest) : Shape :=
  Shape.ofChanges ⟨none, false, .noHistory, false⟩ (setting.hashOf d) changes m

/-- Once deletions and renames are done, the ids that a run may mint for a path are not minted for
another one, nor recorded there, and no curated entry holds them. -/
def IdsApart (home : Location) (force : Bool) (changes : ChangeSet) (m : Manifest)
    (w : World MemoryStore) : Prop :=
  ∀ d, Same home w.disk d →
    MintsApart setting force home d (setting.restructured d changes m).manifest
      (sortedPaths (changes.added ++ changes.modified ++
        (setting.restructured d changes m).reindex)) w.store

end RunSetting

section Minted

variable {σ : Type} {setting : RunSetting σ} {force : Bool} {home : Location} {d d' : Disk}
  {m m' : Manifest} {paths : List String} {s s' : MemoryStore}

/-- What may be minted later may be minted now, and depends on the essence of the records. -/
theorem minted_later (hm : m.Alike m') (hsame : Same home d d') {p id : String}
    (h : Minted setting force home d' m' paths p id) : Minted setting force home d m paths p id := by
  obtain ⟨hp, d'', file, hsame', hfile, hid⟩ := h
  exact ⟨hp, d'', file, hsame.trans hsame', by rw [hm.workItem]; exact hfile, hid⟩

theorem mintsApart_later (h : MintsApart setting force home d m paths s) (hm : m.Alike m')
    (hsame : Same home d d') (hs : ∀ id, s'.isCurated id = s.isCurated id) :
    MintsApart setting force home d' m' paths s' where
  curated p id hid := by
    rw [hs]
    exact h.curated p id (minted_later hm hsame hid)
  recorded p id hid q r hq hr hmem := by
    obtain ⟨r', hr', _, _, hids⟩ := hm.symm.record hr
    exact h.recorded p id (minted_later hm hsame hid) q r' hq hr' (hids ▸ hmem)
  minted p id hid q hq hother :=
    h.minted p id (minted_later hm hsame hid) q hq (minted_later hm hsame hother)

end Minted

namespace RunState

structure Balanced (directory : String) (home : Location) (base : List (Moment MemoryStore))
    (s t : RunState MemoryStore) : Prop where
  since : Since home s t
  storable : t.manifest.Storable
  synced : t.world.store.Synced t.manifest
  curated : ∀ id, t.world.store.isCurated id = s.world.store.isCurated id
  sound : t.optimizer.Sound
  accounted : World.Accounted directory base [] t.manifest t.world

variable {setting : RunSetting MemoryStore} {home : Location} {base : List (Moment MemoryStore)}

theorem Balanced.quiet {s t u : RunState MemoryStore}
    (h : Balanced setting.stateDir home base s t) (hq : Quiet setting.env t u) :
    Balanced setting.stateDir home base s u := by
  have hm := core_manifest hq.core
  have hs : u.world.store = t.world.store := congrArg Core.store hq.core
  refine ⟨hq.since setting h.since, hm ▸ h.storable, ?_, ?_, hq.optimizer h.sound, ?_⟩
  · rw [hs, hm]
    exact h.synced
  · rw [hs]
    exact h.curated
  · rw [hm]
    exact accounted_quiet h.accounted hq

section Structural

variable (plan : RunPlan) (changes : ChangeSet) (s : RunState MemoryStore)

def shapeOf (setting : RunSetting MemoryStore) : Shape :=
  Shape.ofChanges plan (setting.hashOf s.world.disk) changes s.manifest

/-- Deletions and renames are made and committed, or the store stops them. -/
theorem applyStructural_balanced (hstill : setting.env.Still)
    (hstore : setting.store = MemoryStore.calls)
    (hready : Ready setting.stateDir home s.world.disk) (hclock : s.world.clock.Valid)
    (hs : Balanced setting.stateDir home base s s) :
    Runs (applyStructural setting plan changes) s
      (fun reindex t => reindex = (shapeOf plan changes s setting).reindex ∧
        Balanced setting.stateDir home base s t ∧
        ∀ p, t.manifest.get? p = (shapeOf plan changes s setting).manifest.get? p)
      (Halted setting home base s) := by
  have hbegun : World.Accounted setting.stateDir base (structuralPaths changes) s.manifest
      (s.begunBatch (structuralPaths changes)).world :=
    hs.accounted.mark (.batchBegun (structuralPaths changes)) _ (fun _ _ _ _ => rfl)
      fun p _ => hs.accounted.outside p List.not_mem_nil
  -- the edits stay within the paths of the batch that was begun
  have hlocal : StoreEdit.Local (structuralPaths changes)
      (s.begunBatch (structuralPaths changes)).world.store
      (shapeOf plan changes s setting).edits :=
    StoreEdit.local_of_over _ _ (Shape.ofChanges_over changes s.manifest)
  apply runs_imp _ _ _ (applyStructural_shaped setting hstill hstore plan changes s hready
    (fun u v => Balanced setting.stateDir home base s v ∧ v.manifest = u.manifest) ?_)
  · rintro reindex t ⟨hreindex, u, v, hu, ⟨hv, hm⟩, hquiet⟩
    refine ⟨hreindex, hv.quiet hquiet, fun p => ?_⟩
    rw [core_manifest hquiet.core, hm]
    exact hu.manifest p
  · -- a store that stops the run has done some of the edits
    rintro e t ⟨cause, he, hstopped, hsince, _⟩
    exact ⟨hsince, ⟨cause, he⟩, _, _, hbegun.stopped hlocal hstopped⟩
  · intro u touched hu
    have hready' := hready.of_same hu.since.same
    have hstorable : u.manifest.Storable := hu.since.storable hclock hs.storable
    have hstored : u.world.store =
        s.world.store.edited (shapeOf plan changes s setting).edits := by
      rw [hu.world, World.performed_store]
      rfl
    have hsynced : u.world.store.Synced u.manifest := by
      rw [hstored]
      exact (Shape.ofChanges_synced plan _ s.world.store changes s.manifest hs.synced).congr
        hu.manifest
    have haccounted : World.Accounted setting.stateDir base (structuralPaths changes) s.manifest
        u.world := by
      rw [hu.world]
      exact hbegun.performed _ hlocal
    apply runs_imp _ _ _ (runs_and _ _ _ (commitBatch_committed setting hstill touched u hready')
      (commitBatch_accounted hstill touched _ _ u hready' hstorable hsynced haccounted))
    · rintro _ v ⟨hv, hacc⟩
      have hm : v.manifest = u.manifest := congrArg Core.manifest hv.core
      have hst : v.world.store = u.world.store := congrArg Core.store hv.core
      refine ⟨⟨hv.since hu.since, hm ▸ hstorable, ?_, ?_, ?_, hm.symm ▸ hacc⟩, hm⟩
      · rw [hst, hm]
        exact hsynced
      · intro id
        rw [hst, hstored, MemoryStore.isCurated_edited]
      · rw [hv.optimizer, hu.rest.2.2]
        exact hs.sound
    · exact fun _ _ h => h.1

/-- A run that goes through its batches ends one in balance, whether it is finished or cancelled;
the store may stop it in the middle of one. -/
theorem runBatches_balanced (hstill : setting.env.Still)
    (hstore : setting.store = MemoryStore.calls)
    (hready : Ready setting.stateDir home s.world.disk) (hclock : s.world.clock.Valid)
    (hs : Balanced setting.stateDir home base s s)
    (hapart : MintsApart setting plan.force home s.world.disk
      (shapeOf plan changes s setting).manifest
      (sortedPaths (changes.added ++ changes.modified ++ (shapeOf plan changes s setting).reindex))
      s.world.store) :
    Runs (runBatches setting plan changes) s
      (fun _ t => Balanced setting.stateDir home base s t) (Halted setting home base s) := by
  -- once deletions and renames are done, the files that are left fill their records one by one
  have hrest (t : RunState MemoryStore) (ht : Balanced setting.stateDir home base s t)
      (hm : ∀ p, t.manifest.get? p = (shapeOf plan changes s setting).manifest.get? p) :
      Runs (drain setting plan
          (sortedPaths (changes.added ++ changes.modified ++
            (shapeOf plan changes s setting).reindex)).length
          { items := (sortedPaths (changes.added ++ changes.modified ++
              (shapeOf plan changes s setting).reindex)).map (WorkItem.ofPath t.manifest) }) t
        (fun _ u => Balanced setting.stateDir home base s u) (Halted setting home base s) := by
    have halike := Manifest.Alike.of_get? fun p => (hm p).symm
    have hcarried := filling_carried base hstill hstore (hready.of_same ht.since.same)
      (ht.since.clock hclock) (mintsApart_later hapart halike ht.since.same ht.curated)
    apply runs_imp _ _ _ (hcarried.drain hstill (sortedPaths_nodup _) t
      ⟨⟨Since.refl ht.since.same.after, ht.storable, ht.synced, fun _ => rfl, ht.sound,
        fun _ _ => rfl, fun q r hr id hid => .inl ⟨r, hr, hid⟩⟩, ht.accounted⟩)
    · rintro _ u ⟨⟨hu, hacc⟩, _⟩
      exact ⟨ht.since.trans hu.since, hu.storable, hu.synced,
        fun id => (hu.curated id).trans (ht.curated id), hu.sound, hacc⟩
    · rintro e u ⟨hu, hcause, hacc⟩
      exact ⟨ht.since.trans hu, hcause, hacc⟩
  apply runBatches_rule setting plan changes (fun reindex t =>
    reindex = (shapeOf plan changes s setting).reindex ∧
      Balanced setting.stateDir home base s t ∧
      ∀ p, t.manifest.get? p = (shapeOf plan changes s setting).manifest.get? p)
  · exact fun _ => hs
  · intro hdeleted hrenamed
    have hshape : shapeOf plan changes s setting = .start s.manifest :=
      Shape.ofChanges_plain plan _ changes s.manifest hdeleted hrenamed
    rw [hshape]
    exact ⟨rfl, hs, fun _ => rfl⟩
  · exact applyStructural_balanced plan changes s hstill hstore hready hclock hs
  · rintro reindex t ⟨rfl, ht, hm⟩
    exact hrest t ht hm

end Structural

/-- The end of a run saves the records with their flags settled, and then its checkpoint. -/
theorem complete_accounted (hstill : setting.env.Still) (plan : RunPlan) (t : RunState MemoryStore)
    (hready : Ready setting.stateDir home t.world.disk) (hclock : t.world.clock.Valid)
    (hstorable : t.manifest.Storable) (hsynced : t.world.store.Synced t.manifest)
    (h : World.Accounted setting.stateDir base [] t.manifest t.world) :
    Runs (setting.complete plan) t
      (fun _ u => ∃ saved, World.Accounted setting.stateDir base [] saved u.world)
      (fun _ _ => False) := by
  apply complete_rule setting plan t fun u => Ready setting.stateDir home u.world.disk ∧
    ∃ saved, World.Accounted setting.stateDir base [] saved u.world
  · exact fun _ => ⟨hready, _, h⟩
  · intro found _ _
    have hsettled := Manifest.Alike.settled t.manifest (.paths found) t.now
    have hnow := World.unixTime_storable t.world hclock
    apply runs_imp _ _ _ (saveManifest_saved setting hstill
      { t with manifest := t.manifest.settleDivergence found t.now } hready) ?_ fun _ _ h => h
    rintro _ u ⟨w, hw, rfl⟩
    exact ⟨hready.of_same hw.same, _, h.savedManifest hready _
      (hstorable.settleDivergence found _ hnow) (fun p _ => hsettled.symm.synced hsynced p) hw⟩
  · rintro u ⟨hready', saved, hsaved⟩
    apply runs_imp _ _ _ (saveCheckpoint_saved setting hstill
      { u with checkpoint := u.checkpoint.complete t.Clean u.world.clock } hready') ?_
      fun _ _ h => h
    rintro _ v ⟨w, hw, rfl⟩
    exact ⟨saved, hsaved.savedCheckpoint hready' hw⟩

variable {filter : FileFilter} {c : RunContext} {detection : Detection} {force : Bool}
  {w : World MemoryStore} {s : RunState MemoryStore}

/-- A run begins in balance with a store that is in step with the saved manifest. -/
theorem balanced_begun {plan : RunPlan} (hbegun : RunSetting.Begun home c detection force w plan s)
    (hready : Ready setting.stateDir home w.disk)
    (hload : w.loadManifest setting.stateDir = .ok c.manifest)
    (hsynced : w.store.Synced c.manifest) :
    Balanced setting.stateDir home w.moments s s where
  since := .refl (hready.of_same hbegun.same).leaf
  storable := hbegun.manifest ▸ World.loadManifest_storable w hready _ hload
  synced := by
    rw [hbegun.world.1, hbegun.manifest]
    exact hsynced
  curated _ := rfl
  sound := hbegun.sound
  accounted := by
    have hstart : World.Accounted setting.stateDir w.moments [] c.manifest w :=
      ⟨hload, fun p _ => hsynced p, [], rfl, rfl, fun _ _ h => absurd h (by simp)⟩
    rw [hbegun.manifest]
    exact hstart.savedCheckpoint hready hbegun.saved

/-- The ids that a run may mint are apart from its beginning on; the commit that is checked out plays
no part in what is renamed. -/
theorem mintsApart_begun {plan : RunPlan} (hbegun : RunSetting.Begun home c detection force w plan s)
    (hready : Ready setting.stateDir home w.disk)
    (hapart : setting.IdsApart home force detection.changes c.manifest w) :
    MintsApart setting plan.force home s.world.disk
      (shapeOf plan detection.changes s setting).manifest
      (sortedPaths (detection.changes.added ++ detection.changes.modified ++
        (shapeOf plan detection.changes s setting).reindex)) s.world.store := by
  obtain ⟨halike, hreindex, _⟩ := Shape.ofChanges_alike plan ⟨none, false, .noHistory, false⟩
    (setting.hashOf s.world.disk) detection.changes s.manifest
  have hfor := hapart s.world.disk hbegun.same
  unfold RunSetting.restructured at hfor
  rw [← hbegun.manifest] at hfor
  unfold shapeOf
  rw [hreindex, hbegun.force, hbegun.world.1]
  exact mintsApart_later hfor halike.symm (hready.of_same hbegun.same).same_refl fun _ => rfl

end RunState

namespace RunSetting

open RunState

variable {setting : RunSetting MemoryStore} {home : Location} {base : List (Moment MemoryStore)}
  {s t : RunState MemoryStore}

/-- A run whose batches failed has accounted for all its moments when it is concluded. -/
theorem conclude_halted (hstill : setting.env.Still) (plan : RunPlan) {e : IndexError}
    (hready : Ready setting.stateDir home s.world.disk) (h : Halted setting home base s e t) :
    Runs (setting.conclude plan (.error e)) t
      (fun _ u => ∃ batch saved, World.Accounted setting.stateDir base batch saved u.world)
      (fun _ _ => False) := by
  obtain ⟨hsince, ⟨cause, rfl⟩, batch, saved, hacc⟩ := h
  unfold conclude
  rw [runs_bind, runs_modify, runs_bind]
  have hready' := hready.of_same hsince.same
  apply runs_imp _ _ _ (saveCheckpoint_saved setting hstill (failCheckpoint t) hready')
  · rintro _ _ ⟨w', hw', rfl⟩
    exact ⟨batch, saved, hacc.savedCheckpoint hready' hw'⟩
  · exact fun _ _ h => h

theorem conclude_balanced (hstill : setting.env.Still) (plan : RunPlan) (ending : Ending)
    (hready : Ready setting.stateDir home s.world.disk) (hclock : s.world.clock.Valid)
    (h : Balanced setting.stateDir home base s t) :
    Runs (setting.conclude plan (.ok ending)) t
      (fun _ u => ∃ batch saved, World.Accounted setting.stateDir base batch saved u.world)
      (fun _ _ => False) := by
  cases ending with
  | cancelled => exact ⟨_, _, h.accounted⟩
  | finished =>
    apply runs_imp _ _ _ (complete_accounted hstill plan t (hready.of_same h.since.same)
      (h.since.clock hclock) h.storable h.synced h.accounted)
    · rintro _ u ⟨saved, hacc⟩
      exact ⟨_, saved, hacc⟩
    · exact fun _ _ h => h

/-- A run ends with a report, and at each of its moments the store agrees with the manifest on the
disk at all paths outside the batch that is open then. -/
theorem execute_orderly (setting : RunSetting MemoryStore) (home : Location) (filter : FileFilter)
    (hstill : setting.env.Still) (hstore : setting.store = MemoryStore.calls) (c : RunContext)
    (detection : Detection) (force : Bool) (w : World MemoryStore)
    (hready : Ready setting.stateDir home w.disk) (hclock : w.clock.Valid)
    (hload : w.loadManifest setting.stateDir = .ok c.manifest)
    (hsynced : w.store.Synced c.manifest)
    (hapart : setting.IdsApart home force detection.changes c.manifest w) :
    ∃ report w', (setting.execute filter c detection force).run w = (.ok report, w') ∧
      ∃ new, w'.moments = new ++ w.moments ∧ AllOrderly setting.stateDir new := by
  apply runs_returns
  apply execute_rule setting home filter hstill c detection force w hready
  intro plan s flow t outcome u hbegun _ _ hrun hend
  have hready' := hready.of_same hbegun.same
  have hclock' : s.world.clock.Valid := hbegun.world.2.1 ▸ hclock
  have hbatches := runBatches_balanced plan detection.changes s hstill hstore hready' hclock'
    (balanced_begun hbegun hready hload hsynced) (mintsApart_begun hbegun hready hapart)
  unfold Runs at hbatches
  rw [hrun] at hbatches
  have hconclude : Runs (setting.conclude plan flow) t
      (fun _ u => ∃ batch saved, World.Accounted setting.stateDir w.moments batch saved u.world)
      (fun _ _ => False) := by
    cases flow with
    | error e => exact conclude_halted hstill plan hready' hbatches
    | ok ending => exact conclude_balanced hstill plan ending hready' hclock' hbatches
  obtain ⟨_, u', hu', batch, saved, hacc⟩ := runs_returns _ hconclude
  cases hend.symm.trans hu'
  obtain ⟨new, hnew, _, horderly⟩ := hacc.moments
  exact ⟨new, hnew, horderly⟩

end RunSetting

theorem namedStore_free {text : String} {texts : List String} (h : text ∉ texts) :
    (namedStore texts).get? text = none := by
  induction texts with
  | nil => rfl
  | cons first rest ih =>
    rw [List.mem_cons, not_or] at h
    show ((namedStore rest).upsertOne ⟨namedEntity first, []⟩).get? text = none
    rw [MemoryStore.get?_upsertOne, ih h.2]
    exact if_neg (Ne.symm h.1)

theorem namedManifest_free {text : String} {texts : List String} (h : text ∉ texts) :
    (namedManifest texts).get? (text ++ ".py") = none := by
  rw [get?_namedManifest, Option.map_eq_none_iff, List.find?_eq_none]
  intro other hother heq
  rw [decide_eq_true_iff, String.append_left_inj] at heq
  exact h (heq ▸ hother)

theorem named_synced {texts : List String} (h : texts.Nodup) :
    (namedStore texts).Synced (namedManifest texts) := by
  induction texts with
  | nil => exact MemoryStore.synced_empty
  | cons text rest ih =>
    rw [List.nodup_cons] at h
    exact (ih h.2).joined ⟨namedEntity text, []⟩ (namedRecord text) .zero rfl rfl
      (namedManifest_free h.1) (namedStore_free h.1)
section Replaced

open RunSetting

def replacedEntry : EmbeddedEntity where
  entity := {
    id := "1"
    filePath := "a.py"
    kind := .class_
    name := "A"
    span := ⟨1, 2⟩
    contentHash := "1"
    variant := .metadata
    signature := none
    scope := none
    text := "class A" }
  vector := []

def replacedManifest : Manifest :=
  Manifest.empty.recordIndexed
    { path := "a.py"
      contentHash := "1"
      lastSeenCommit := none
      modificationTime := 0
      lineage := "1"
      entityIds := ["1"] } .zero

def replacedDisk : Disk := sampleDisk [("b.py", "class B: pass")]

def replacedWorld : World MemoryStore :=
  { sampleWorld replacedDisk (sampleCheckpoint "old") replacedManifest with
    store := ({} : MemoryStore).upsert [replacedEntry] }

def replacedSetting : RunSetting MemoryStore :=
  sampleSetting
    ⟨fun _ => true, fun _ text => .ok [⟨.class_, "B", ⟨1, 1⟩, none, none, text⟩]⟩ fun _ =>
    Git.View.outside

theorem replaced_ready : Ready "/w/.sift" sampleHome replacedDisk := by
  apply sample_ready <;> decide

theorem replacedManifest_storable : replacedManifest.Storable := by
  have hnow : Duration.zero.secs < Nat.pow 2 63 := by decide
  exact Manifest.empty_storable.recordIndexed _ (by decide) .zero hnow

theorem get?_replacedManifest (p : String) :
    replacedManifest.get? p = if "a.py" = p then replacedManifest.get? "a.py" else none := by
  unfold replacedManifest
  rw [Manifest.get?_recordIndexed, Manifest.get?_empty, Manifest.get?_recordIndexed, if_pos rfl]

theorem replaced_synced : replacedWorld.store.Synced replacedManifest :=
  MemoryStore.synced_single replacedEntry _ .zero rfl rfl

theorem replaced_apart : replacedSetting.IdsApart sampleHome false
    { added := ["b.py"], deleted := ["a.py"] } replacedManifest replacedWorld := by
  intro d _
  have hshape : replacedSetting.restructured d { added := ["b.py"], deleted := ["a.py"] }
      replacedManifest = (Shape.start replacedManifest).forget "a.py" := rfl
  have hpaths : sortedPaths (["b.py"] ++ [] ++ []) = ["b.py"] := by decide
  have hnone (p : String) : (replacedManifest.removeFile "a.py" .zero).get? p = none := by
    rw [Manifest.get?_removeFile, get?_replacedManifest]
    split
    · rfl
    · rfl
  rw [hshape]
  show MintsApart replacedSetting false sampleHome d (replacedManifest.removeFile "a.py" .zero)
    (sortedPaths (["b.py"] ++ [] ++ [])) replacedWorld.store
  rw [hpaths]
  refine ⟨?_, ?_, ?_⟩
  · intro p id _
    show (({} : MemoryStore).upsert [replacedEntry]).isCurated id = false
    have hkept := MemoryStore.isCurated_apply (.write [replacedEntry]) {} id
    exact hkept
  · intro p id _ q r _ hr
    rw [hnone] at hr
    cases hr
  · intro p id hid q hq hother
    have hp := List.mem_singleton.mp hid.1
    have hq' := List.mem_singleton.mp hother.1
    exact hq (hq'.trans hp.symm)

/-- The deletion and the new file, which are two batches. -/
theorem replaced_orderly : ∃ report w',
    (replacedSetting.execute sampleFilter
      ⟨sampleCheckpoint "old", replacedManifest, false⟩
      ⟨{ added := ["b.py"], deleted := ["a.py"] }, .supplied, none, []⟩ false).run replacedWorld =
        (.ok report, w') ∧
    ∃ new, w'.moments = new ++ replacedWorld.moments ∧ AllOrderly replacedSetting.stateDir new := by
  have hdir : replacedSetting.stateDir = "/w/.sift" := sample_stateDir _ _
  have hready : Ready replacedSetting.stateDir sampleHome replacedWorld.disk := by
    rw [hdir]
    exact replaced_ready.of_same (World.holding_same _ _ replaced_ready)
  have hload : replacedWorld.loadManifest replacedSetting.stateDir = .ok replacedManifest := by
    rw [hdir]
    exact (World.load_holding (sampleCheckpoint "old") replacedManifest replacedWorld
      replaced_ready (sampleCheckpoint_storable "old") replacedManifest_storable rfl).2
  exact execute_orderly replacedSetting sampleHome sampleFilter (sample_still _ _) rfl
    ⟨sampleCheckpoint "old", replacedManifest, false⟩
    ⟨{ added := ["b.py"], deleted := ["a.py"] }, .supplied, none, []⟩ false replacedWorld hready
    sample_clock hload replaced_synced replaced_apart

end Replaced

end CodeIndex
