import CodeIndex.Proofs.Run.Quiet
import CodeIndex.Run.Batching

namespace CodeIndex

namespace VectorStore

variable {τ : Type} (store : VectorStore τ) (w : τ) (Q : WriteStats → τ → Prop)
  (E : StoreError → τ → Prop)

theorem runs_deleteFile (path : String) :
    Runs (store.deleteFile path) w Q E ↔
      Runs (store.deleteByPath path) w (fun removed w' => Q { removed := removed } w') E := by
  unfold deleteFile
  simp only [runs_bind, runs_pure]

/-- The entries of a file are moved after those of a recorded target are deleted. -/
theorem runs_renameFile (source target : String) (had : Bool) :
    Runs (store.renameFile source target had) w Q E ↔
      Runs (if had then store.deleteByPath target else pure 0) w
        (fun removed w' => Runs (store.updatePath source target) w'
          (fun renamed w'' => Q { removed := removed, renamed := renamed } w'') E) E := by
  unfold renameFile
  cases had with
  | true => simp only [if_true, runs_bind, runs_pure]
  | false => simp only [Bool.false_eq_true, if_false, runs_bind, runs_pure]

def staleIds (previous current : Std.ExtTreeSet String) : List String :=
  previous.toList.filter fun id => !current.contains id

theorem mem_staleIds (previous current : Std.ExtTreeSet String) (id : String) :
    id ∈ staleIds previous current ↔ id ∈ previous ∧ id ∉ current := by
  unfold staleIds
  rw [List.mem_filter, Std.ExtTreeSet.mem_toList, Bool.not_eq_true', ← Bool.not_eq_true,
    Std.ExtTreeSet.contains_iff_mem]

/-- Leftovers of a file without a record are deleted, new entries are written, and stale ones are
deleted, in this order. -/
theorem runs_updateFile (path : String) (previous current : Std.ExtTreeSet String)
    (embedded : List EmbeddedEntity) (hasRecord : Bool) :
    Runs (store.updateFile path previous current embedded hasRecord) w Q E ↔
      Runs (if hasRecord then pure 0 else store.deleteByPath path) w
        (fun leftover w₁ => Runs (store.upsert embedded) w₁
          (fun _ w₂ => Runs (if (staleIds previous current).isEmpty then pure 0
              else store.deleteIds (staleIds previous current)) w₂
            (fun dropped w₃ => Q {
              added := embedded.length
              removed := leftover + dropped
              unchanged := (previous.toList.filter fun id => current.contains id).length } w₃)
            E) E) E := by
  have hstale : (previous.toList.filter fun id => !current.contains id) =
      staleIds previous current := rfl
  unfold updateFile
  simp only [hstale]
  cases hasRecord <;> cases (staleIds previous current).isEmpty <;>
    simp only [Bool.false_eq_true, if_true, if_false, runs_bind, runs_pure]

end VectorStore

namespace World

variable {σ α : Type}

def requested (w : World σ) (env : Surroundings) (texts : List String) : World σ :=
  { w with
    requests := texts :: w.requests
    disk := env.atRequest (w.requests.length + 1) w.disk
    isCancelled := w.isCancelled || env.cancelsAt (w.requests.length + 1) }

/-- While time passes no request is made, and the store stays as it is. -/
theorem wait_requests (w : World σ) (d : Duration) : (w.wait d).requests = w.requests := by
  unfold wait
  dsimp only
  split <;> rfl

theorem wait_store (w : World σ) (d : Duration) : (w.wait d).store = w.store := by
  unfold wait
  dsimp only
  split <;> rfl

def reachOne (env : Surroundings) (call : StoreCall) (x : StoreM σ α) : StoreM (World σ) α :=
  noteCall call do
    beforeStore env call
    x.onPart (·.store) fun s w => { w with store := s }

def counted (w : World σ) (call : StoreCall) : World σ :=
  { w with storeCalls := call :: w.storeCalls }

/-- A call fails ahead of the store, or is what the store makes of it. The disk may have been changed
just before. -/
theorem runs_reachOne (env : Surroundings) (call : StoreCall) (x : StoreM σ α) (w : World σ)
    (Q : α → World σ → Prop) (E : StoreError → World σ → Prop)
    (hfail : ∀ cause, env.atStore call (w.storeCalls.count call + 1) = .fail cause →
      E cause (w.counted call))
    (hgo : ∀ disk, env.atStore call (w.storeCalls.count call + 1) = .proceed ∧ disk = w.disk ∨
        (∃ f, env.atStore call (w.storeCalls.count call + 1) = .alter f ∧ disk = f w.disk) →
      Runs x w.store
        (fun a st => Q a
          (({ w.counted call with disk := disk, store := st } : World σ).mark (.storeCall call)))
        (fun e st => E e { w.counted call with disk := disk, store := st })) :
    Runs (reachOne env call x) w Q E := by
  -- once the disk is what the surroundings make of it, the call is that of the store
  have hcall (disk : Disk) (h : Runs x w.store
      (fun a st => Q a
        (({ w.counted call with disk := disk, store := st } : World σ).mark (.storeCall call)))
      (fun e st => E e { w.counted call with disk := disk, store := st })) :
      Runs (x.onPart (·.store) fun s v => { v with store := s })
        { w.counted call with disk := disk }
        (fun a v => Q a (v.mark (.storeCall call))) E := by
    unfold Runs StoreM.onPart at *
    simp only [ExceptT.run, ExceptT.mk, counted] at *
    rcases hx : x w.store with ⟨r, st⟩
    rw [hx] at h
    cases r <;> exact h
  unfold reachOne noteCall beforeStore
  simp only [runs_bind, runs_get, runs_modify, runs_pure]
  cases hhook : env.atStore call (w.storeCalls.count call + 1) with
  | proceed =>
    rw [runs_set]
    exact hcall w.disk (hgo w.disk (.inl ⟨hhook, rfl⟩))
  | fail cause =>
    simp only [runs_bind, runs_set, runs_throw]
    exact hfail cause hhook
  | alter f =>
    rw [runs_set]
    exact hcall (f w.disk) (hgo _ (.inr ⟨f, hhook, rfl⟩))

theorem runs_reachOne_still (env : Surroundings) (hstill : env.Still) (call : StoreCall)
    (x : StoreM σ α) (w : World σ) (Q : α → World σ → Prop) (E : StoreError → World σ → Prop)
    (hfail : ∀ cause, env.atStore call (w.storeCalls.count call + 1) = .fail cause →
      E cause (w.counted call))
    (hgo : env.atStore call (w.storeCalls.count call + 1) = .proceed →
      Runs x w.store
        (fun a st => Q a (({ w.counted call with store := st } : World σ).mark (.storeCall call)))
        (fun e st => E e { w.counted call with store := st })) :
    Runs (reachOne env call x) w Q E := by
  apply runs_reachOne env call x w Q E hfail
  rintro disk (⟨hproceed, rfl⟩ | ⟨f, halter, _⟩)
  · exact hgo hproceed
  · exact absurd halter (hstill.store _ _ _)

variable (env : Surroundings) (store : VectorStore σ)

theorem reach_upsert (entities : List EmbeddedEntity) :
    (reach env store).upsert entities = reachOne env .upsert (store.upsert entities) := rfl

theorem reach_deleteByPath (path : String) :
    (reach env store).deleteByPath path = reachOne env .deleteByPath (store.deleteByPath path) := rfl

theorem reach_deleteIds (ids : List String) :
    (reach env store).deleteIds ids = reachOne env .deleteIds (store.deleteIds ids) := rfl

theorem reach_updatePath (source target : String) :
    (reach env store).updatePath source target =
      reachOne env .updatePath (store.updatePath source target) := rfl

/-! What every single call to the store keeps is kept by a deletion, a rename and an update of a
file, also where they fail in between. -/

section Kept

variable (holds : World σ → Prop)
  (hcall : ∀ {α : Type} (call : StoreCall) (x : StoreM σ α) (w : World σ), holds w →
    Runs (reachOne env call x) w (fun _ w' => holds w') fun _ w' => holds w')
  (w : World σ) (hw : holds w)

include hcall hw

theorem deleteFile_kept (path : String) :
    Runs ((reach env store).deleteFile path) w (fun _ w' => holds w') fun _ w' => holds w' := by
  rw [VectorStore.runs_deleteFile]
  exact hcall _ _ w hw

theorem renameFile_kept (source target : String) (had : Bool) :
    Runs ((reach env store).renameFile source target had) w (fun _ w' => holds w')
      fun _ w' => holds w' := by
  have hfront : Runs (if had then reachOne env .deleteByPath (store.deleteByPath target)
      else pure 0) w (fun _ w' => holds w') fun _ w' => holds w' := by
    split
    · exact hcall _ _ w hw
    · exact hw
  rw [VectorStore.runs_renameFile, reach_deleteByPath, reach_updatePath]
  apply runs_imp _ _ _ hfront ?_ fun _ _ h => h
  exact fun _ w' h => hcall _ _ w' h

theorem updateFile_kept (path : String) (previous current : Std.ExtTreeSet String)
    (embedded : List EmbeddedEntity) (hasRecord : Bool) :
    Runs ((reach env store).updateFile path previous current embedded hasRecord) w
      (fun _ w' => holds w') fun _ w' => holds w' := by
  -- a call that is made only in some cases
  have hsome (c : Prop) [Decidable c] (call : StoreCall) (x : StoreM σ Nat) (v : World σ)
      (hv : holds v) : Runs (if c then pure 0 else reachOne env call x) v (fun _ w' => holds w')
        fun _ w' => holds w' := by
    split
    · exact hv
    · exact hcall _ _ v hv
  rw [VectorStore.runs_updateFile, reach_deleteByPath, reach_upsert, reach_deleteIds]
  apply runs_imp _ _ _ (hsome _ _ _ w hw) ?_ fun _ _ h => h
  intro _ w₁ h₁
  apply runs_imp _ _ _ (hcall _ _ w₁ h₁) ?_ fun _ _ h => h
  exact fun _ w₂ h₂ => hsome _ _ _ w₂ h₂

end Kept

/-! What every write to the disk keeps is kept by a save, however far it comes. -/

section Saved

variable (env : Surroundings) (holds : World σ → Prop)
  (hwrite : ∀ (disk : Disk) (w : World σ), holds w →
    holds (({ w with disk := disk } : World σ).mark .diskWrite))
  (w : World σ) (hw : holds w)

include hwrite hw

theorem saveStep_kept (act : Disk → Except DiskError Disk)
    (cut : Nat → Disk → Except DiskError Disk) :
    Runs (saveStep env act cut) w (fun _ w' => holds w') fun _ w' => holds w' := by
  unfold saveStep change
  rw [runs_bind, runs_get]
  split
  · rw [runs_bind, runs_get]
    split
    · exact hwrite _ w hw
    · exact hw
  · exact hwrite _ w hw

theorem save_kept (directory name text : String) :
    Runs (save env directory name text) w (fun _ w' => holds w') fun _ w' => holds w' := by
  unfold save
  simp only [runs_bind, runs_get]
  apply runs_imp _ _ _ (saveStep_kept env holds hwrite w hw _ _) ?_ fun _ _ h => h
  intro _ w₁ h₁
  apply runs_imp _ _ _ (saveStep_kept env holds hwrite w₁ h₁ _ _) ?_ fun _ _ h => h
  intro _ w₂ h₂
  apply runs_imp _ _ _ (saveStep_kept env holds hwrite w₂ h₂ _ _) ?_ fun _ _ h => h
  exact fun _ w₃ h₃ => saveStep_kept env holds hwrite w₃ h₃ _ _

end Saved

end World

namespace RunState

variable {σ : Type} (setting : RunSetting σ)

/-- A file that is gone is removed from the store and then from the manifest. -/
theorem runs_forget (path : String) (s : RunState σ) (Q : WriteStats → RunState σ → Prop)
    (E : IndexError → RunState σ → Prop) :
    Runs (forget setting path) s Q E ↔
      Runs ((World.reach setting.env setting.store).deleteFile path) s.world
        (fun stats w => Q stats
          { s with world := w, manifest := s.manifest.removeFile path w.unixTime })
        (fun e w => E (.storeWrite e) { s with world := w }) := by
  unfold forget
  simp only [runs_bind, runs_inStore, runs_modify, runs_pure]
  rfl

def relocated (m : Manifest) (plan : RunPlan) (source target : String) (now : Duration) :
    Manifest :=
  let cleared := if (m.get? target).isSome then m.removeFile target now else m
  (cleared.renameFile source target plan.head now).setDiverged target (plan.isDiverged target)

theorem runs_relocate (plan : RunPlan) (source target : String) (s : RunState σ)
    (Q : WriteStats → RunState σ → Prop) (E : IndexError → RunState σ → Prop) :
    Runs (relocate setting plan source target) s Q E ↔
      Runs ((World.reach setting.env setting.store).renameFile source target
          (s.manifest.get? target).isSome) s.world
        (fun stats w => Q stats
          { s with world := w, manifest := relocated s.manifest plan source target w.unixTime })
        (fun e w => E (.storeWrite e) { s with world := w }) := by
  unfold relocate
  simp only [runs_bind, runs_get, runs_inStore, runs_modify, runs_pure]
  rfl

theorem runs_writeFile (plan : RunPlan) (file : PreparedFile) (vectors : List Embedding)
    (s : RunState σ) (Q : WriteStats → RunState σ → Prop)
    (E : IndexError → RunState σ → Prop) :
    Runs (writeFile setting plan file vectors) s Q E ↔
      Runs ((World.reach setting.env setting.store).updateFile file.path file.previousIds
          file.currentIds (withVectors file.fresh vectors) file.hasRecord) s.world
        (fun stats w => Q stats
          { s with
            world := w
            manifest := s.manifest.recordIndexed (recordOf plan file) w.unixTime })
        (fun e w => E (.storeWrite e) { s with world := w }) := by
  unfold writeFile
  simp only [runs_bind, runs_inStore, runs_modify, runs_pure]
  rfl

theorem runs_saveManifest (s : RunState σ) (Q : Unit → RunState σ → Prop)
    (E : IndexError → RunState σ → Prop) :
    Runs (saveManifest setting) s Q E ↔
      Runs (World.save setting.env setting.stateDir Manifest.fileName s.manifest.fileText) s.world
        (fun _ w => Q () { s with world := w }) fun e w => E e { s with world := w } := by
  unfold saveManifest
  rw [runs_bind, runs_get, runs_inWorld]

theorem runs_saveCheckpoint (s : RunState σ) (Q : Unit → RunState σ → Prop)
    (E : IndexError → RunState σ → Prop) :
    Runs (saveCheckpoint setting) s Q E ↔
      Runs (World.save setting.env setting.stateDir Checkpoint.fileName s.checkpoint.fileText)
        s.world (fun _ w => Q () { s with world := w }) fun e w => E e { s with world := w } := by
  unfold saveCheckpoint
  rw [runs_bind, runs_get, runs_inWorld]

/-- A commit saves the manifest, and then the checkpoint with the batch. -/
theorem runs_commitBatch (files : List String) (s : RunState σ) (Q : Unit → RunState σ → Prop)
    (E : IndexError → RunState σ → Prop) :
    Runs (commitBatch setting files) s Q E ↔
      Runs (World.save setting.env setting.stateDir Manifest.fileName s.manifest.fileText) s.world
        (fun _ w => Runs (World.save setting.env setting.stateDir Checkpoint.fileName
            (s.checkpoint.recordBatch s.batchIndex files w.clock).fileText) w
          (fun _ v => Q ()
            { s with
              world := v.mark .batchSaved
              checkpoint := s.checkpoint.recordBatch s.batchIndex files w.clock
              batchIndex := s.batchIndex + 1
              result := { s.result with batches := s.result.batches + 1 } })
          fun e v => E e
            { s with
              world := v
              checkpoint := s.checkpoint.recordBatch s.batchIndex files w.clock })
        fun e w => E e { s with world := w } := by
  unfold commitBatch
  simp only [runs_bind, runs_saveManifest, runs_modify, runs_saveCheckpoint]

def Restructured.deleted (found : Restructured) (path : String) (stats : WriteStats) :
    Restructured :=
  { found with
    stats := found.stats.merge stats
    touched := found.touched ++ [path]
    settled := found.settled + 1 }

def Restructured.moved (found : Restructured) (source target : String) (stats : WriteStats) :
    Restructured :=
  { found with
    stats := found.stats.merge stats
    touched := found.touched ++ [source, target]
    settled := found.settled + 1 }

def Restructured.replaced (found : Restructured) (source target : String) (stats : WriteStats) :
    Restructured :=
  { found with
    stats := found.stats.merge stats
    touched := found.touched ++ [source]
    reindex := found.reindex ++ [target] }

/-- Deletions are done one after the other. The assertion is about what is found so far and the paths
that are left. -/
theorem applyDeletions_found (I : Restructured → List String → RunState σ → Prop)
    (E : IndexError → RunState σ → Prop)
    (hstep : ∀ found path rest s, I found (path :: rest) s →
      Runs (forget setting path) s (fun stats t => I (found.deleted path stats) rest t) E)
    (found : Restructured) (paths : List String) (s : RunState σ) (h : I found paths s) :
    Runs (applyDeletions setting found paths) s (fun r t => I r [] t) E := by
  induction paths generalizing found s with
  | nil =>
    rw [applyDeletions, runs_pure]
    exact h
  | cons path rest ih =>
    rw [applyDeletions, runs_bind]
    apply runs_imp _ _ _ (hstep found path rest s h)
    · intro stats t ht
      exact ih _ t ht
    · intro e t ht
      exact ht

/-- What a rename comes to, by the record of its source and the content of its target. -/
theorem applyRename_found (plan : RunPlan) (I : Restructured → RunState σ → Prop)
    (E : IndexError → RunState σ → Prop) (found : Restructured) (source target : String)
    (s : RunState σ)
    (hnone : s.manifest.get? source = none →
      I { found with reindex := found.reindex ++ [target] } s)
    (hunread : (s.manifest.get? source).isSome → ∀ e,
      s.world.disk.readFile (Path.join setting.root target) = .error e → I found s.addUnreadable)
    (hsame : ∀ r content modified, s.manifest.get? source = some r →
      s.world.disk.readFile (Path.join setting.root target) = .ok (content, modified) →
      Digest.contentHash content = r.contentHash →
      Runs (relocate setting plan source target) s
        (fun stats t => I (found.moved source target stats) t) E)
    (hother : ∀ r content modified, s.manifest.get? source = some r →
      s.world.disk.readFile (Path.join setting.root target) = .ok (content, modified) →
      Digest.contentHash content ≠ r.contentHash →
      Runs (forget setting source) s
        (fun stats t => I (found.replaced source target stats) t) E) :
    Runs (applyRename setting plan found source target) s I E := by
  unfold applyRename
  rw [runs_bind, runs_get]
  split
  · -- the source has no record
    rename_i hrec
    rw [runs_pure]
    exact hnone hrec
  · -- the target cannot be read
    rename_i r e hrec hread
    rw [runs_bind, runs_set, runs_pure]
    exact hunread (by rw [hrec]; rfl) e hread
  · -- by the content of the target the file was moved as it is, or is another
    rename_i r content modified hrec hread
    split
    · rename_i hhash
      rw [runs_bind]
      apply runs_imp _ _ _ (hsame r content modified hrec hread hhash)
      · intro stats t ht
        exact ht
      · intro e t ht
        exact ht
    · rename_i hhash
      rw [runs_bind]
      apply runs_imp _ _ _ (hother r content modified hrec hread hhash)
      · intro stats t ht
        exact ht
      · intro e t ht
        exact ht

/-- The same, by an assertion about the paths touched so far and those to be indexed anew. -/
theorem applyRename_rule (plan : RunPlan) (I : List String → List String → RunState σ → Prop)
    (E : IndexError → RunState σ → Prop) (found : Restructured) (source target : String)
    (s : RunState σ)
    (hnone : s.manifest.get? source = none → I found.touched (found.reindex ++ [target]) s)
    (hunread : (s.manifest.get? source).isSome → ∀ e,
      s.world.disk.readFile (Path.join setting.root target) = .error e →
      I found.touched found.reindex s.addUnreadable)
    (hsame : ∀ r content modified, s.manifest.get? source = some r →
      s.world.disk.readFile (Path.join setting.root target) = .ok (content, modified) →
      Digest.contentHash content = r.contentHash →
      Runs (relocate setting plan source target) s
        (fun _ t => I (found.touched ++ [source, target]) found.reindex t) E)
    (hother : ∀ r content modified, s.manifest.get? source = some r →
      s.world.disk.readFile (Path.join setting.root target) = .ok (content, modified) →
      Digest.contentHash content ≠ r.contentHash →
      Runs (forget setting source) s
        (fun _ t => I (found.touched ++ [source]) (found.reindex ++ [target]) t) E) :
    Runs (applyRename setting plan found source target) s
      (fun r t => I r.touched r.reindex t) E :=
  applyRename_found setting plan (fun r t => I r.touched r.reindex t) E found source target s
    hnone hunread hsame hother

theorem applyRenames_found (plan : RunPlan)
    (I : Restructured → List (String × String) → RunState σ → Prop)
    (E : IndexError → RunState σ → Prop)
    (hstep : ∀ found source target rest s, I found ((source, target) :: rest) s →
      Runs (applyRename setting plan found source target) s (fun r t => I r rest t) E)
    (found : Restructured) (renames : List (String × String)) (s : RunState σ)
    (h : I found renames s) :
    Runs (applyRenames setting plan found renames) s (fun r t => I r [] t) E := by
  induction renames generalizing found s with
  | nil =>
    rw [applyRenames, runs_pure]
    exact h
  | cons ends rest ih =>
    obtain ⟨source, target⟩ := ends
    rw [applyRenames, runs_bind]
    apply runs_imp _ _ _ (hstep found source target rest s h)
    · intro r t ht
      exact ih r t ht
    · intro e t ht
      exact ht

def begunBatch (s : RunState σ) (paths : List String) : RunState σ :=
  { s with world := s.world.mark (.batchBegun paths) }

/-- The paths that deletions and renames are about. -/
def structuralPaths (changes : ChangeSet) : List String :=
  changes.deleted ++ changes.renamed.flatMap fun (a, b) => [a, b]

structure Counted (s t : RunState σ) : Prop where
  rest : ∃ result progress, t = { s with result := result, progress := progress }
  failed : t.result.filesFailed = s.result.filesFailed
  status : t.result.status = s.result.status
  errors : t.result.errors = s.result.errors

theorem Counted.quiet {s t : RunState σ} (h : Counted s t) (env : Surroundings) :
    Quiet env s t := by
  obtain ⟨⟨result, progress, rfl⟩, hfailed, hstatus, herrors⟩ := h
  refine ⟨?_, rfl, rfl, fun _ _ h => h, fun h => h, fun _ => rfl, rfl, herrors⟩
  unfold core
  dsimp only at *
  rw [hfailed, hstatus]

def restructured (s : RunState σ) (found : Restructured) : RunState σ :=
  let counted := s.addStats found.stats
  { counted with
    result := { counted.result with
      filesProcessed := counted.result.filesProcessed + found.settled }
    progress := counted.progress.settled found.settled }

/-- Deletions and renames are one batch, of the paths that they touch, and are counted at its end. -/
theorem applyStructural_found (plan : RunPlan) (changes : ChangeSet)
    (D : Restructured → List String → RunState σ → Prop)
    (R : Restructured → List (String × String) → RunState σ → Prop)
    (J : List String → RunState σ → Prop) (E : IndexError → RunState σ → Prop)
    (s : RunState σ) (hbegin : D {} changes.deleted (s.begunBatch (structuralPaths changes)))
    (hdelete : ∀ found path rest s, D found (path :: rest) s →
      Runs (forget setting path) s (fun stats t => D (found.deleted path stats) rest t) E)
    (hturn : ∀ found s, D found [] s → R found changes.renamed s)
    (hrename : ∀ found source target rest s, R found ((source, target) :: rest) s →
      Runs (applyRename setting plan found source target) s (fun r t => R r rest t) E)
    (hcommit : ∀ found s, R found [] s →
      Runs (commitBatch setting found.touched) s
        (fun _ t => J found.reindex (t.restructured found)) E) :
    Runs (applyStructural setting plan changes) s (fun reindex t => J reindex t) E := by
  unfold applyStructural
  simp only [runs_bind, runs_modify, runs_pure]
  apply runs_imp _ _ _ (applyDeletions_found setting D E hdelete {} changes.deleted _ hbegin)
  · intro found t ht
    apply runs_imp _ _ _ (applyRenames_found setting plan R E hrename found changes.renamed t
      (hturn found t ht))
    · intro found' u hu
      exact hcommit found' u hu
    · intro e u hu
      exact hu
  · intro e t ht
    exact ht

theorem applyStructural_rule (plan : RunPlan) (changes : ChangeSet)
    (D : List String → List String → RunState σ → Prop)
    (R : List String → List String → List (String × String) → RunState σ → Prop)
    (J : List String → RunState σ → Prop) (E : IndexError → RunState σ → Prop)
    (s : RunState σ) (hbegin : D [] changes.deleted (s.begunBatch (structuralPaths changes)))
    (hdelete : ∀ touched path rest s, D touched (path :: rest) s →
      Runs (forget setting path) s (fun _ t => D (touched ++ [path]) rest t) E)
    (hturn : ∀ touched s, D touched [] s → R touched [] changes.renamed s)
    (hrename : ∀ found source target rest s,
      R found.touched found.reindex ((source, target) :: rest) s →
      Runs (applyRename setting plan found source target) s
        (fun r t => R r.touched r.reindex rest t) E)
    (hcommit : ∀ touched reindex s, R touched reindex [] s →
      Runs (commitBatch setting touched) s (fun _ t => J reindex t) E)
    (hcounted : ∀ reindex s t, J reindex s → Counted s t → J reindex t) :
    Runs (applyStructural setting plan changes) s (fun reindex t => J reindex t) E := by
  -- deletions leave nothing to be indexed anew
  apply applyStructural_found setting plan changes
    (fun found rest t => found.reindex = [] ∧ D found.touched rest t)
    (fun found rest t => R found.touched found.reindex rest t) J E s ⟨rfl, hbegin⟩
  · rintro found path rest t ⟨hnone, ht⟩
    apply runs_imp _ _ _ (hdelete found.touched path rest t ht)
    · exact fun stats u hu => ⟨hnone, hu⟩
    · exact fun e u hu => hu
  · rintro found t ⟨hnone, ht⟩
    rw [hnone]
    exact hturn found.touched t ht
  · exact hrename
  · intro found t ht
    apply runs_imp _ _ _ (hcommit found.touched found.reindex t ht)
    · exact fun _ u hu => hcounted _ _ _ hu ⟨⟨_, _, rfl⟩, rfl, rfl, rfl⟩
    · exact fun e u hu => hu

/-- An assertion about the touched paths that every deletion and every move of a file keeps leads to
what its commit makes of it. The paths to be indexed anew are targets of renames. -/
theorem applyStructural_keeps (plan : RunPlan) (changes : ChangeSet)
    (I : List String → RunState σ → Prop) (J : RunState σ → Prop)
    (E : IndexError → RunState σ → Prop) (s : RunState σ)
    (hbegin : I [] (s.begunBatch (structuralPaths changes)))
    (hforget : ∀ touched path t, I touched t →
      Runs (forget setting path) t (fun _ u => I (touched ++ [path]) u) E)
    (hrelocate : ∀ touched source target t, I touched t →
      Runs (relocate setting plan source target) t
        (fun _ u => I (touched ++ [source, target]) u) E)
    (hunread : ∀ touched source target e t, (source, target) ∈ changes.renamed →
      t.world.disk.readFile (Path.join setting.root target) = .error e →
      I touched t → I touched t.addUnreadable)
    (hcommit : ∀ touched t, I touched t →
      Runs (commitBatch setting touched) t (fun _ u => J u) E)
    (hcounted : ∀ t u, J t → Counted t u → J u) :
    Runs (applyStructural setting plan changes) s
      (fun reindex t => J t ∧ ∀ p ∈ reindex, ∃ e ∈ changes.renamed, p = e.2) E := by
  -- beside the assertion, the renames that are left are of the changes
  let Targets (reindex : List String) : Prop := ∀ p ∈ reindex, ∃ e ∈ changes.renamed, p = e.2
  apply applyStructural_rule setting plan changes (fun touched _ t => I touched t)
    (fun touched reindex rest t => I touched t ∧ Targets reindex ∧ rest ⊆ changes.renamed)
    (fun reindex t => J t ∧ Targets reindex)
  · exact hbegin
  · exact fun touched path _ t ht => hforget touched path t ht
  · exact fun _ _ ht => ⟨ht, fun _ hp => absurd hp List.not_mem_nil, List.Subset.refl _⟩
  · rintro found source target rest t ⟨ht, hreindex, hrest⟩
    have hmem : (source, target) ∈ changes.renamed := hrest List.mem_cons_self
    have hrest' : rest ⊆ changes.renamed := List.Subset.trans (List.subset_cons_self _ _) hrest
    have hmore : Targets (found.reindex ++ [target]) :=
      List.forall_mem_append.mpr ⟨hreindex, List.forall_mem_singleton.mpr ⟨_, hmem, rfl⟩⟩
    apply applyRename_rule setting plan
      (fun touched reindex u => I touched u ∧ Targets reindex ∧ rest ⊆ changes.renamed)
    · exact fun _ => ⟨ht, hmore, hrest'⟩
    · exact fun _ e hread => ⟨hunread _ source target e t hmem hread ht, hreindex, hrest'⟩
    · exact fun _ _ _ _ _ _ => runs_imp _ _ _ (hrelocate _ source target t ht)
        (fun _ _ hu => ⟨hu, hreindex, hrest'⟩) fun _ _ hu => hu
    · exact fun _ _ _ _ _ _ => runs_imp _ _ _ (hforget _ source t ht)
        (fun _ _ hu => ⟨hu, hmore, hrest'⟩) fun _ _ hu => hu
  · rintro touched reindex t ⟨ht, hreindex, _⟩
    exact runs_imp _ _ _ (hcommit touched t ht) (fun _ _ hu => ⟨hu, hreindex⟩) fun _ _ hu => hu
  · exact fun _ t u ht hu => ⟨hcounted t u ht.1 hu, ht.2⟩

def Embedded (s t : RunState σ) : Prop :=
  ∃ w calls optimizer, t = { s with
    world := w
    result := { s.result with embeddingCalls := calls }
    optimizer := optimizer }

theorem Embedded.trans {s t u : RunState σ} (h : Embedded s t) (h' : Embedded t u) :
    Embedded s u := by
  obtain ⟨_, _, _, rfl⟩ := h
  obtain ⟨w, calls, optimizer, rfl⟩ := h'
  exact ⟨w, calls, optimizer, rfl⟩

section Embedding

variable (I : List String → World σ → Prop) (sound : Prop)
  (hwait : ∀ texts w d, I texts w → I texts (w.wait d))
  (hrequest : ∀ texts w size, (sound → texts ≠ [] → 1 ≤ size) → I texts w →
    I texts (w.requested setting.env (texts.take size)) ∧
      I (texts.drop size) (w.requested setting.env (texts.take size)))

include hwait hrequest

/-- Texts are taken off the front of a list in one request, that may be made again. -/
theorem embedFront_rule (n : Nat) (texts : List String) (s : RunState σ)
    (hsound : sound → s.optimizer.Sound) (h : I texts s.world) :
    Runs (embedFront setting texts n) s
      (fun r t => Embedded s t ∧ s.optimizer.LeadsTo t.optimizer ∧ I r.2 t.world ∧
        (sound → texts ≠ [] → r.2.length < texts.length))
      (fun _ t => Embedded s t ∧ s.optimizer.LeadsTo t.optimizer ∧ ∃ left, I left t.world) := by
  -- the induction is on the attempts that are left
  induction n generalizing s with
  | zero =>
    unfold embedFront
    exact ⟨⟨_, _, _, rfl⟩, .refl _, texts, h⟩
  | succ n ih =>
    have hsize : sound → texts ≠ [] → 1 ≤ min s.optimizer.currentSize texts.length := by
      intro hs hne
      have hlen := List.length_pos_iff.mpr hne
      have hnow := (hsound hs).now
      omega
    have hrecord {t : RunState σ} (hst : Embedded s t) (w : World σ) (m : BatchMetrics) :
        Embedded s { t with world := w, optimizer := t.optimizer.record m } :=
      hst.trans ⟨_, _, _, rfl⟩
    have hleads {t : RunState σ} (hoptimizer : t.optimizer = s.optimizer) (m : BatchMetrics) :
        s.optimizer.LeadsTo (t.optimizer.record m) := by
      rw [hoptimizer]
      exact s.optimizer.leadsTo_record m
    refine runs_attempt setting (fun _ _ t => Embedded s t ∧ t.optimizer = s.optimizer ∧
      I texts t.world ∧ I (texts.drop (min s.optimizer.currentSize texts.length)) t.world)
      _ rfl ?_ ?_ ?_
    · unfold request
      simp only [runs_bind, runs_get]
      obtain ⟨hkept, hdropped⟩ := hrequest texts s.world _ hsize h
      cases setting.env.permits with
      | false => exact ⟨⟨_, _, _, rfl⟩, .refl _, texts, h⟩
      | true => exact ⟨⟨_, _, _, rfl⟩, rfl, hwait _ _ _ hkept, hwait _ _ _ hdropped⟩
    · rintro latency answer t vectors ⟨hst, hoptimizer, -, hdropped⟩ -
      refine ⟨hrecord hst _ _, hleads hoptimizer _, hdropped, fun hs hne => ?_⟩
      have hone := hsize hs hne
      rw [List.length_drop]
      omega
    · rintro latency answer t e ⟨hst, hoptimizer, hkept, -⟩ -
      have hleads := hleads hoptimizer (measured setting texts
        (min s.optimizer.currentSize texts.length) latency answer)
      refine ⟨⟨hrecord hst _ _, hleads, texts, hkept⟩, fun delay => ?_⟩
      apply runs_imp _ _ _ (ih _ (fun hs => hleads.sound (hsound hs)) (hwait _ _ _ hkept))
      · exact fun r u hu => ⟨(hrecord hst _ _).trans hu.1, hleads.trans hu.2.1, hu.2.2⟩
      · exact fun _ u hu => ⟨(hrecord hst _ _).trans hu.1, hleads.trans hu.2.1, hu.2.2⟩

theorem embedRounds_rule (rounds : Nat) (found : List Embedding) (texts : List String)
    (s : RunState σ) (hrounds : sound → texts.length ≤ rounds)
    (hsound : sound → s.optimizer.Sound) (h : I texts s.world) :
    Runs (embedRounds setting rounds found texts) s
      (fun _ t => Embedded s t ∧ s.optimizer.LeadsTo t.optimizer ∧
        ∃ left, (sound → left = []) ∧ I left t.world)
      (fun _ t => Embedded s t ∧ s.optimizer.LeadsTo t.optimizer ∧ ∃ left, I left t.world) := by
  -- each round leaves fewer texts, if the batch sizes are sound
  induction rounds generalizing found texts s with
  | zero =>
    have hleft : sound → texts = [] :=
      fun hs => List.length_eq_zero_iff.mp (Nat.le_zero.mp (hrounds hs))
    cases texts <;> exact ⟨⟨_, _, _, rfl⟩, .refl _, _, hleft, h⟩
  | succ rounds ih =>
    cases texts with
    | nil => exact ⟨⟨_, _, _, rfl⟩, .refl _, [], fun _ => rfl, h⟩
    | cons text texts =>
      rw [embedRounds, runs_bind]
      · apply runs_imp _ _ _ (embedFront_rule setting I sound hwait hrequest _ _ s hsound h)
        · rintro ⟨vectors, rest⟩ t ⟨hst, hleads, hrest, hless⟩
          have hfewer (hs : sound) : rest.length ≤ rounds := by
            have hrest : rest.length < (text :: texts).length := hless hs (List.cons_ne_nil _ _)
            have hall := hrounds hs
            omega
          apply runs_imp _ _ _ (ih (found ++ vectors) rest t hfewer
            (fun hs => hleads.sound (hsound hs)) hrest)
          · exact fun _ u hu => ⟨hst.trans hu.1, hleads.trans hu.2.1, hu.2.2⟩
          · exact fun _ u hu => ⟨hst.trans hu.1, hleads.trans hu.2.1, hu.2.2⟩
        · exact fun _ _ ht => ht
      · intro heq
        cases heq

end Embedding

/-- Texts are embedded request by request, until none is left or the embedding is given up. The
assertion is about the texts that are left. -/
theorem embedAll_rule (I : List String → World σ → Prop) (texts : List String) (s : RunState σ)
    (hwait : ∀ texts w d, I texts w → I texts (w.wait d))
    (hrequest : ∀ texts w size, (s.optimizer.Sound → texts ≠ [] → 1 ≤ size) → I texts w →
      I texts (w.requested setting.env (texts.take size)) ∧
        I (texts.drop size) (w.requested setting.env (texts.take size)))
    (h : I texts s.world) :
    Runs (embedAll setting texts) s
      (fun _ t => Embedded s t ∧ s.optimizer.LeadsTo t.optimizer ∧
        ∃ left, (s.optimizer.Sound → left = []) ∧ I left t.world)
      (fun _ t => Embedded s t ∧ s.optimizer.LeadsTo t.optimizer ∧
        ∃ left, I left t.world) :=
  embedRounds_rule setting I _ hwait hrequest texts.length [] texts s (fun _ => Nat.le_refl _) id h

theorem embedAll_store (texts : List String) (s : RunState σ) :
    Runs (embedAll setting texts) s
      (fun _ t => Embedded s t ∧ s.optimizer.LeadsTo t.optimizer ∧
        t.world.store = s.world.store)
      (fun _ t => Embedded s t ∧ s.optimizer.LeadsTo t.optimizer ∧
        t.world.store = s.world.store) := by
  apply runs_imp _ _ _ (embedAll_rule setting (fun _ w => w.store = s.world.store) texts s
    ?_ ?_ rfl)
  · rintro _ t ⟨ht, hleads, _, _, hstore⟩
    exact ⟨ht, hleads, hstore⟩
  · rintro _ t ⟨ht, hleads, _, hstore⟩
    exact ⟨ht, hleads, hstore⟩
  · intro _ w d hw
    rwa [World.wait_store]
  · exact fun _ w _ _ hw => ⟨hw, hw⟩

theorem core_addFailure (s : RunState σ) (path : String) (e : IndexError) :
    (s.addFailure path e).core = { s.core with missed := s.core.missed + 1 } := by
  simp only [addFailure, IndexResult.recordFailure, core, Core.mk.injEq, true_and, and_true]
  omega

theorem core_addUnreadable (s : RunState σ) :
    s.addUnreadable.core = { s.core with missed := s.core.missed + 1 } := by
  simp only [addUnreadable, core, Core.mk.injEq, true_and, and_true]
  omega

def isWritten (failure : Option IndexError) (file : PreparedFile) : Bool :=
  failure.isNone || file.fresh.isEmpty

theorem filter_isWritten_goes {failure : Option IndexError} {file : PreparedFile}
    (hcase : failure = none ∨ file.fresh = []) (rest : List PreparedFile) :
    (file :: rest).filter (isWritten failure) = file :: rest.filter (isWritten failure) := by
  apply List.filter_cons_of_pos
  rcases hcase with rfl | hfresh
  · rfl
  · simp [isWritten, hfresh]

theorem filter_isWritten_skips {file : PreparedFile} (hfresh : file.fresh ≠ []) (e : IndexError)
    (rest : List PreparedFile) :
    (file :: rest).filter (isWritten (some e)) = rest.filter (isWritten (some e)) := by
  apply List.filter_cons_of_neg
  simpa [isWritten] using hfresh

def Written.add (written : Written) (file : PreparedFile) (stats : WriteStats) : Written where
  done := written.done ++ [file.path]
  stats := written.stats.merge stats
  entities := written.entities + file.currentIds.size

/-- The files of a batch are written one after the other. The assertion is about what is written so
far, the vectors and the files that are left. -/
theorem writeFiles_written (plan : RunPlan) (failure : Option IndexError)
    (W : Written → List Embedding → List PreparedFile → RunState σ → Prop)
    (E : IndexError → RunState σ → Prop)
    (hfail : ∀ written vectors file files s e, failure = some e → file.fresh ≠ [] →
      W written vectors (file :: files) s → W written vectors files (s.addFailure file.path e))
    (hwrite : ∀ written vectors file files s, failure = none ∨ file.fresh = [] →
      W written vectors (file :: files) s →
      Runs (writeFile setting plan file vectors) s
        (fun stats t => W (written.add file stats) (vectors.drop file.fresh.length) files t) E)
    (written : Written) (vectors : List Embedding) (files : List PreparedFile) (s : RunState σ)
    (h : W written vectors files s) :
    Runs (writeFiles setting plan failure written vectors files) s
      (fun r t => ∃ rest, W r rest [] t) E := by
  induction files generalizing written vectors s with
  | nil =>
    rw [writeFiles, runs_pure]
    exact ⟨vectors, h⟩
  | cons file files ih =>
    -- a file is written when the embedding went well, or when it needs no vectors
    have hdone (hcase : failure = none ∨ file.fresh = []) :
        Runs (do
          let stats ← writeFile setting plan file vectors
          writeFiles setting plan failure (written.add file stats)
            (vectors.drop file.fresh.length) files) s
          (fun r t => ∃ rest, W r rest [] t) E := by
      rw [runs_bind]
      apply runs_imp _ _ _ (hwrite written vectors file files s hcase h)
      · intro stats t ht
        exact ih _ _ t ht
      · intro e t ht
        exact ht
    cases failure with
    | none =>
      rw [writeFiles]
      · exact hdone (.inl rfl)
      · intro e first more he
        cases he
    | some e =>
      cases hfresh : file.fresh with
      | nil =>
        rw [writeFiles.eq_3]
        · exact hdone (.inr hfresh)
        · intro e' first more he hmore
          rw [hfresh] at hmore
          cases hmore
      | cons first more =>
        rw [writeFiles.eq_2 setting plan written vectors file files e first more hfresh]
        rw [runs_bind, runs_modify]
        apply ih
        exact hfail written vectors file files s e rfl
          (by rw [hfresh]; exact List.cons_ne_nil _ _) h

def processed (s : RunState σ) (files : Nat) : RunState σ :=
  { s with result := { s.result with filesProcessed := s.result.filesProcessed + files } }

/-- The state once the counts of a batch of so many files are added up. -/
def batched (s : RunState σ) (files : Nat) (written : Written) : RunState σ :=
  let counted := s.addStats written.stats
  { counted with progress := counted.progress.batchDone files written.entities (.ofMillis 1) }

/-- A batch is begun, embedded, written, committed and counted. An error of the embedding is kept as
a value, and the files are written all the same. -/
theorem writeBatch_counts (plan : RunPlan) (files : List PreparedFile)
    (W : Option IndexError → Written → List Embedding → List PreparedFile → RunState σ → Prop)
    (J : RunState σ → Prop) (E : IndexError → RunState σ → Prop) (s : RunState σ)
    (hembed : Runs (embedAll setting (textsOf files)) (s.begunBatch (files.map (·.path)))
      (fun vectors t => W none {} vectors files t) (fun e t => W (some e) {} [] files t))
    (hfail : ∀ failure written vectors file files s e, failure = some e → file.fresh ≠ [] →
      W failure written vectors (file :: files) s →
      W failure written vectors files (s.addFailure file.path e))
    (hwrite : ∀ failure written vectors file files s, failure = none ∨ file.fresh = [] →
      W failure written vectors (file :: files) s →
      Runs (writeFile setting plan file vectors) s
        (fun stats t => W failure (written.add file stats) (vectors.drop file.fresh.length) files t)
        E)
    (hcommit : ∀ failure written vectors s, W failure written vectors [] s →
      Runs (commitBatch setting written.done) (s.processed written.done.length)
        (fun _ t => J (t.batched files.length written)) E) :
    Runs (writeBatch setting plan files) s (fun _ t => J t) E := by
  -- what follows the embedding is the same whether this failed or not
  have hrest (failure : Option IndexError) (vectors : List Embedding) (t : RunState σ)
      (hw : W failure {} vectors files t) :
      Runs (do
        let written ← writeFiles setting plan failure {} vectors files
        modify fun s => { s with result := { s.result with
          filesProcessed := s.result.filesProcessed + written.done.length } }
        commitBatch setting written.done
        modify fun s =>
          let s := s.addStats written.stats
          { s with progress := s.progress.batchDone files.length written.entities (.ofMillis 1) })
        t (fun _ u => J u) E := by
    simp only [runs_bind, runs_modify]
    apply runs_imp _ _ _ (writeFiles_written setting plan failure (W failure) E
      (fun written vectors file files s e => hfail failure written vectors file files s e)
      (fun written vectors file files s => hwrite failure written vectors file files s) {} vectors
      files t hw)
    · rintro written u ⟨rest, hu⟩
      exact hcommit failure written rest u hu
    · intro e u hu
      exact hu
  unfold writeBatch
  rw [runs_bind, runs_modify]
  dsimp only
  split
  · rename_i hempty
    rw [List.isEmpty_iff.mp hempty] at hembed
    rw [runs_bind, runs_pure]
    apply hrest
    exact hembed
  · rw [runs_bind]
    apply runs_kept _ (embedAll setting (textsOf files)) (fun vectors => (vectors, none))
      (fun e => ([], some e))
    · intro vectors t hran
      simp only [ExceptT.run, ExceptT.mk] at hran ⊢
      rw [hran]
    · intro e t hran
      simp only [ExceptT.run, ExceptT.mk] at hran ⊢
      rw [hran]
    apply runs_imp _ _ _ hembed
    · intro vectors t ht
      exact hrest none vectors t ht
    · intro e t ht
      exact hrest (some e) [] t ht

/-- A batch by the paths that are written of it, with counts that may come to anything. -/
theorem writeBatch_parts (plan : RunPlan) (files : List PreparedFile)
    (W : Option IndexError → List String → List Embedding → List PreparedFile → RunState σ → Prop)
    (J : RunState σ → Prop) (E : IndexError → RunState σ → Prop) (s : RunState σ)
    (hembed : Runs (embedAll setting (textsOf files)) (s.begunBatch (files.map (·.path)))
      (fun vectors t => W none [] vectors files t) (fun e t => W (some e) [] [] files t))
    (hfail : ∀ failure done vectors file files s e, failure = some e → file.fresh ≠ [] →
      W failure done vectors (file :: files) s →
      W failure done vectors files (s.addFailure file.path e))
    (hwrite : ∀ failure done vectors file files s, failure = none ∨ file.fresh = [] →
      W failure done vectors (file :: files) s →
      Runs (writeFile setting plan file vectors) s
        (fun _ t => W failure (done ++ [file.path]) (vectors.drop file.fresh.length) files t) E)
    (hcommit : ∀ failure done vectors s, W failure done vectors [] s →
      Runs (commitBatch setting done) (s.processed done.length) (fun _ t => J t) E)
    (hstats : ∀ s stats progress, J s → J { s.addStats stats with progress := progress }) :
    Runs (writeBatch setting plan files) s (fun _ t => J t) E := by
  apply writeBatch_counts setting plan files
    (fun failure written vectors rest t => W failure written.done vectors rest t) J E s hembed
  · exact fun failure written => hfail failure written.done
  · exact fun failure written => hwrite failure written.done
  · intro failure written vectors t ht
    apply runs_imp _ _ _ (hcommit failure written.done vectors t ht)
    · exact fun _ u hu => hstats u written.stats _ hu
    · exact fun e u hu => hu

theorem writeBatch_steps (plan : RunPlan) (files : List PreparedFile)
    (W : Option IndexError → List String → List Embedding → List PreparedFile → RunState σ → Prop)
    (J : RunState σ → Prop) (E : IndexError → RunState σ → Prop) (s : RunState σ)
    (hembed : Runs (embedAll setting (textsOf files)) (s.begunBatch (files.map (·.path)))
      (fun vectors t => W none [] vectors files t) (fun e t => W (some e) [] [] files t))
    (hfail : ∀ failure done vectors file files s e, failure = some e → file.fresh ≠ [] →
      W failure done vectors (file :: files) s →
      W failure done vectors files (s.addFailure file.path e))
    (hwrite : ∀ failure done vectors file files s, failure = none ∨ file.fresh = [] →
      W failure done vectors (file :: files) s →
      Runs (writeFile setting plan file vectors) s
        (fun _ t => W failure (done ++ [file.path]) (vectors.drop file.fresh.length) files t) E)
    (hcommit : ∀ failure done vectors s t, W failure done vectors [] s → Counted s t →
      Runs (commitBatch setting done) t (fun _ u => J u) E)
    (hcounted : ∀ s t, J s → Counted s t → J t) :
    Runs (writeBatch setting plan files) s (fun _ t => J t) E := by
  apply writeBatch_parts setting plan files W J E s hembed hfail hwrite
  · exact fun failure done vectors t ht =>
      hcommit failure done vectors t _ ht ⟨⟨_, _, rfl⟩, rfl, rfl, rfl⟩
  · exact fun t _ _ ht => hcounted t _ ht ⟨⟨_, _, rfl⟩, rfl, rfl, rfl⟩

/-- An assertion about the files written so far that every good file keeps, whatever its vectors
are, leads to what the commit of the batch makes of it. -/
theorem writeBatch_keeps (plan : RunPlan) (files : List PreparedFile) (Good : PreparedFile → Prop)
    (I : List String → RunState σ → Prop) (J : RunState σ → Prop)
    (E : IndexError → RunState σ → Prop) (s : RunState σ) (hfiles : ∀ file ∈ files, Good file)
    (hembed : Runs (embedAll setting (textsOf files)) (s.begunBatch (files.map (·.path)))
      (fun _ t => I [] t) (fun _ t => I [] t))
    (hfail : ∀ done path e t, I done t → I done (t.addFailure path e))
    (hwrite : ∀ done vectors file t, Good file → I done t →
      Runs (writeFile setting plan file vectors) t (fun _ u => I (done ++ [file.path]) u) E)
    (hcommit : ∀ done t u, I done t → Counted t u →
      Runs (commitBatch setting done) u (fun _ v => J v) E)
    (hcounted : ∀ t u, J t → Counted t u → J u) :
    Runs (writeBatch setting plan files) s (fun _ t => J t) E := by
  apply writeBatch_steps setting plan files
    (fun _ done _ rest t => (∀ file ∈ rest, Good file) ∧ I done t) J E s
  · exact runs_imp _ _ _ hembed (fun _ _ ht => ⟨hfiles, ht⟩) fun _ _ ht => ⟨hfiles, ht⟩
  · rintro _ done _ file rest t e _ _ ⟨hrest, ht⟩
    exact ⟨(List.forall_mem_cons.mp hrest).2, hfail done file.path e t ht⟩
  · rintro _ done vectors file rest t _ ⟨hrest, ht⟩
    obtain ⟨hfile, hrest'⟩ := List.forall_mem_cons.mp hrest
    exact runs_imp _ _ _ (hwrite done vectors file t hfile ht) (fun _ _ hu => ⟨hrest', hu⟩)
      fun _ _ hu => hu
  · exact fun _ done _ t u ht hu => hcommit done t u ht.2 hu
  · exact hcounted

/-- In still surroundings the embedding of a batch leaves the core of the run alone. -/
theorem writeBatch_rule (hstill : setting.env.Still) (plan : RunPlan)
    (files : List PreparedFile)
    (W : Option IndexError → List String → List Embedding → List PreparedFile → RunState σ → Prop)
    (J : RunState σ → Prop) (E : IndexError → RunState σ → Prop) (s : RunState σ)
    (hbegin : ∀ failure vectors t,
      Quiet setting.env (s.begunBatch (files.map (·.path))) t →
      (failure = none → s.optimizer.Sound → vectors.length = (textsOf files).length ∧
        ∀ vector, setting.Answers vector → vectors = (textsOf files).map vector) →
      (failure ≠ none → ∀ vector, ¬ setting.Faithful vector) → W failure [] vectors files t)
    (hfail : ∀ failure done vectors file files s e, failure = some e → file.fresh ≠ [] →
      W failure done vectors (file :: files) s →
      W failure done vectors files (s.addFailure file.path e))
    (hwrite : ∀ failure done vectors file files s, failure = none ∨ file.fresh = [] →
      W failure done vectors (file :: files) s →
      Runs (writeFile setting plan file vectors) s
        (fun _ t => W failure (done ++ [file.path]) (vectors.drop file.fresh.length) files t) E)
    (hcommit : ∀ failure done vectors s t, W failure done vectors [] s → Quiet setting.env s t →
      Runs (commitBatch setting done) t (fun _ u => J u) E)
    (hquiet : ∀ s t, J s → Quiet setting.env s t → J t) :
    Runs (writeBatch setting plan files) s (fun _ t => J t) E := by
  apply writeBatch_steps setting plan files W J E s _ hfail hwrite
  · exact fun failure done vectors s t hs ht =>
      hcommit failure done vectors s t hs (ht.quiet setting.env)
  · exact fun s t hs ht => hquiet s t hs (ht.quiet setting.env)
  · apply runs_imp _ _ _ (embedAll_facts setting hstill (textsOf files)
      (s.begunBatch (files.map (·.path))))
    · rintro vectors t ⟨hquiet, hvectors⟩
      exact hbegin none vectors t hquiet (fun _ hsound => hvectors hsound)
        (fun h => absurd rfl h)
    · rintro e t ⟨hquiet, hnever⟩
      exact hbegin (some e) [] t hquiet (fun h => by cases h) (fun _ => hnever)

theorem Queue.fill_length (q : Queue) (workers : Nat) (read : WorkItem → Prepared) :
    (q.fill workers read).ahead.length + (q.fill workers read).items.length =
      q.ahead.length + q.items.length := by
  simp only [Queue.fill, List.length_append, List.length_map, List.length_take, List.length_drop]
  omega

/-- Nothing is read ahead only when nothing is left to be read. -/
theorem Queue.fill_empty {q : Queue} {workers : Nat} {read : WorkItem → Prepared}
    (h : (q.fill workers read).ahead = []) : (q.fill workers read).items = [] := by
  simp only [Queue.fill, List.append_eq_nil_iff, List.map_eq_nil_iff, List.take_eq_nil_iff] at h ⊢
  obtain ⟨hahead, hitems⟩ := h
  rw [hahead, List.length_nil] at hitems ⊢
  rcases hitems with hitems | hitems
  · omega
  · rw [hitems]
    exact List.drop_nil

/-- What the reading of each file carries on holds once enough are read ahead. -/
theorem Queue.fill_steps {read : WorkItem → Prepared} {P : List Prepared → List WorkItem → Prop}
    (hread : ∀ ahead item items, P ahead (item :: items) → P (ahead ++ [read item]) items)
    (q : Queue) (workers : Nat) (h : P q.ahead q.items) :
    P (q.fill workers read).ahead (q.fill workers read).items := by
  have hreads (n : Nat) (ahead : List Prepared) (items : List WorkItem) (h : P ahead items) :
      P (ahead ++ (items.take n).map read) (items.drop n) := by
    induction n generalizing ahead items with
    | zero => simpa using h
    | succ n ih =>
      cases items with
      | nil => simpa using h
      | cons item items => simpa using ih _ _ (hread ahead item items h)
  exact hreads _ _ _ h

/-- What is left at the end is written, unless the run is cancelled before. -/
theorem runs_finish (plan : RunPlan) (J C : RunState σ → Prop) (E : IndexError → RunState σ → Prop)
    (pending : List PreparedFile) (s : RunState σ) (hnone : pending = [] → J s)
    (hwrite : pending ≠ [] → s.world.isCancelled = false →
      Runs (writeBatch setting plan pending) s (fun _ t => J t) E)
    (hcancel : s.world.isCancelled = true → C s) :
    Runs (drain.finish setting plan pending) s
      (fun ending t => (ending = .finished → J t) ∧ (ending = .cancelled → C t)) E := by
  unfold drain.finish
  split
  · rename_i hempty
    rw [runs_pure]
    exact ⟨fun _ => hnone (List.isEmpty_iff.mp hempty), nofun⟩
  · rename_i hne
    rw [runs_bind, runs_get]
    split
    · rename_i hcancelled
      rw [runs_pure]
      exact ⟨nofun, fun _ => hcancel hcancelled⟩
    · rename_i hcalm
      rw [runs_bind]
      apply runs_imp _ _ _ (hwrite (fun h => hne (List.isEmpty_iff.mpr h)) (by simpa using hcalm))
      · intro _ t ht
        rw [runs_pure]
        exact ⟨fun _ => ht, nofun⟩
      · exact fun _ _ h => h

theorem isFull_ne_nil {s : RunState σ} {pending : List PreparedFile}
    (h : isFull setting s pending = true) : pending ≠ [] := by
  rintro rfl
  simp [isFull] at h

/-- The files of a run are read ahead, taken one after the other, and every full batch is written.
A file is read at some time of the run and taken later. The assertion `T` holds once a file is
taken, until it is known whether the batch is full. -/
theorem drain_loop (plan : RunPlan)
    (I T : List PreparedFile → List Prepared → List WorkItem → RunState σ → Prop)
    (E : IndexError → RunState σ → Prop) (C : RunState σ → Prop)
    (hread : ∀ pending ahead item items s, I pending ahead (item :: items) s →
      I pending (ahead ++ [prepare setting plan.force s.world.disk item]) items s)
    (htake : ∀ pending next ahead items s, I pending (next :: ahead) items s →
      T (takePrepared s pending next).2 ahead items (takePrepared s pending next).1)
    (hgo : ∀ pending ahead items s, T pending ahead items s → isFull setting s pending = false →
      I pending ahead items s)
    (hwrite : ∀ pending ahead items s, pending ≠ [] →
      T pending ahead items s ∨ I pending ahead items s → s.world.isCancelled = false →
      Runs (writeBatch setting plan pending) s (fun _ t => I [] ahead items t) E)
    (hcancel : ∀ pending ahead items s, T pending ahead items s ∨ I pending ahead items s →
      s.world.isCancelled = true → C s)
    (files : Nat) (q : Queue) (s : RunState σ)
    (hfuel : q.ahead.length + q.items.length ≤ files) (h : I q.pending q.ahead q.items s) :
    Runs (drain setting plan files q) s
      (fun ending t => (ending = .finished → I [] [] [] t) ∧ (ending = .cancelled → C t)) E := by
  have hfinish (pending : List PreparedFile) (s : RunState σ) (h : I pending [] [] s) :
      Runs (drain.finish setting plan pending) s
        (fun ending t => (ending = .finished → I [] [] [] t) ∧ (ending = .cancelled → C t)) E :=
    runs_finish setting plan (I [] [] []) C E pending s (fun hnone => hnone ▸ h)
      (fun hne => hwrite pending [] [] s hne (.inr h)) (hcancel pending [] [] s (.inr h))
  -- the induction is on the files that may still be taken; the queue has no more than these
  induction files generalizing q s with
  | zero =>
    have hahead : q.ahead = [] := List.length_eq_zero_iff.mp (by omega)
    have hitems : q.items = [] := List.length_eq_zero_iff.mp (by omega)
    rw [hahead, hitems] at h
    rw [drain]
    exact hfinish _ s h
  | succ files ih =>
    rw [drain, runs_bind, runs_get]
    have hfill := q.fill_steps (P := fun ahead items => I q.pending ahead items s)
      (fun ahead item items => hread q.pending ahead item items s) setting.config.workers h
    have hlength := q.fill_length setting.config.workers
      (prepare setting plan.force s.world.disk)
    have hempty := @Queue.fill_empty q setting.config.workers
      (prepare setting plan.force s.world.disk)
    have hpending : (q.fill setting.config.workers
        (prepare setting plan.force s.world.disk)).pending = q.pending := rfl
    generalize q.fill setting.config.workers (prepare setting plan.force s.world.disk) = filled
      at *
    rw [← hpending] at hfill
    dsimp only
    split
    · rename_i hnil
      rw [hnil, hempty hnil] at hfill
      exact hfinish _ s hfill
    · rename_i next ahead hahead
      rw [hahead] at hfill
      have htaken := htake _ next _ _ s hfill
      have hleft : ahead.length + filled.items.length ≤ files := by
        rw [hahead, List.length_cons] at hlength
        omega
      rw [runs_bind, runs_set]
      split
      · rename_i hfull
        split
        · rename_i hcancelled
          rw [runs_pure]
          exact ⟨nofun, fun _ => hcancel _ _ _ _ (.inl htaken) hcancelled⟩
        · rename_i hcalm
          rw [runs_bind]
          apply runs_imp _ _ _ (hwrite _ _ _ _ (isFull_ne_nil setting hfull) (.inl htaken)
            (by simpa using hcalm))
          · exact fun _ t ht => ih { filled with ahead := ahead, pending := [] } t hleft ht
          · exact fun _ _ h => h
      · rename_i hroom
        exact ih { filled with ahead := ahead, pending := (takePrepared s filled.pending next).2 }
          _ hleft (hgo _ _ _ _ htaken (by simpa using hroom))

/-- The loop by one assertion, where it does not matter which batches are full. -/
theorem drain_steps (plan : RunPlan)
    (I : List PreparedFile → List Prepared → List WorkItem → RunState σ → Prop)
    (E : IndexError → RunState σ → Prop) (C : RunState σ → Prop)
    (hread : ∀ pending ahead item items s, I pending ahead (item :: items) s →
      I pending (ahead ++ [prepare setting plan.force s.world.disk item]) items s)
    (htake : ∀ pending next ahead items s, I pending (next :: ahead) items s →
      I (takePrepared s pending next).2 ahead items (takePrepared s pending next).1)
    (hwrite : ∀ pending ahead items s, pending ≠ [] → I pending ahead items s →
      s.world.isCancelled = false →
      Runs (writeBatch setting plan pending) s (fun _ t => I [] ahead items t) E)
    (hcancel : ∀ pending ahead items s, I pending ahead items s → s.world.isCancelled = true → C s)
    (files : Nat) (q : Queue) (s : RunState σ)
    (hfuel : q.ahead.length + q.items.length ≤ files) (h : I q.pending q.ahead q.items s) :
    Runs (drain setting plan files q) s
      (fun ending t => (ending = .finished → I [] [] [] t) ∧ (ending = .cancelled → C t)) E :=
  drain_loop setting plan I I E C hread htake (fun _ _ _ _ h _ => h)
    (fun pending ahead items s hne h => hwrite pending ahead items s hne (h.elim id id))
    (fun pending ahead items s h => hcancel pending ahead items s (h.elim id id)) files q s hfuel h

/-- Files that are read the same at any time of the run are as if they had been read at first:
`read` is what the reading gives. -/
theorem drain_rule (plan : RunPlan) (read : WorkItem → Prepared)
    (I : List PreparedFile → List Prepared → RunState σ → Prop)
    (E : IndexError → RunState σ → Prop) (C : RunState σ → Prop) (allowed : List WorkItem)
    (hread : ∀ pending todo s, I pending todo s → ∀ item ∈ allowed,
      prepare setting plan.force s.world.disk item = read item)
    (htake : ∀ pending next todo s, I pending (next :: todo) s →
      I (takePrepared s pending next).2 todo (takePrepared s pending next).1)
    (hwrite : ∀ pending todo s, pending ≠ [] → I pending todo s → s.world.isCancelled = false →
      Runs (writeBatch setting plan pending) s (fun _ t => I [] todo t) E)
    (hcancel : ∀ pending todo s, I pending todo s → s.world.isCancelled = true → C s)
    (files : Nat) (q : Queue) (s : RunState σ) (hallowed : ∀ item ∈ q.items, item ∈ allowed)
    (hfuel : q.ahead.length + q.items.length ≤ files)
    (h : I q.pending (q.ahead ++ q.items.map read) s) :
    Runs (drain setting plan files q) s
      (fun ending t => (ending = .finished → I [] [] t) ∧ (ending = .cancelled → C t)) E := by
  -- a file still to be read counts as what its reading will give
  apply runs_imp _ _ _ (drain_steps setting plan
    (fun pending ahead items s => (∀ item ∈ items, item ∈ allowed) ∧
      I pending (ahead ++ items.map read) s) E C ?_ ?_ ?_ ?_ files q s hfuel ⟨hallowed, h⟩)
  · exact fun ending t ht => ⟨fun hf => (ht.1 hf).2, ht.2⟩
  · exact fun _ _ h => h
  · rintro pending ahead item items s ⟨hitems, hs⟩
    refine ⟨fun i hi => hitems i (List.mem_cons_of_mem _ hi), ?_⟩
    rw [hread _ _ s hs item (hitems item List.mem_cons_self), List.append_assoc]
    exact hs
  · rintro pending next ahead items s ⟨hitems, hs⟩
    exact ⟨hitems, htake _ _ _ s hs⟩
  · rintro pending ahead items s hne ⟨hitems, hs⟩ hc
    exact runs_imp _ _ _ (hwrite _ _ s hne hs hc) (fun _ t ht => ⟨hitems, ht⟩) fun _ _ h => h
  · rintro pending ahead items s ⟨_, hs⟩ hc
    exact hcancel _ _ s hs hc

/-- An assertion about the run that every batch keeps, and that makes each file good that is read
while it holds, holds at the end too. -/
theorem drain_files (plan : RunPlan) (Good : PreparedFile → Prop) (I : RunState σ → Prop)
    (E : IndexError → RunState σ → Prop) (items : List WorkItem)
    (hread : ∀ s item file, I s → item ∈ items →
      prepare setting plan.force s.world.disk item = .ready file → Good file)
    (htake : ∀ s pending next, I s → I (takePrepared s pending next).1)
    (hwrite : ∀ s pending, I s → (∀ file ∈ pending, Good file) →
      Runs (writeBatch setting plan pending) s (fun _ t => I t) E)
    (files : Nat) (hfuel : items.length ≤ files) (s : RunState σ) (h : I s) :
    Runs (drain setting plan files { items := items }) s (fun _ t => I t) E := by
  have hnone : ∀ file ∈ ([] : List PreparedFile), Good file :=
    fun _ hfile => absurd hfile List.not_mem_nil
  -- the files of the batch and those read ahead are good, and the rest is still to be read
  apply runs_imp _ _ _ (drain_steps setting plan
    (fun pending ahead left t => I t ∧ (∀ file ∈ pending, Good file) ∧
      (∀ file, .ready file ∈ ahead → Good file) ∧ left ⊆ items)
    E I ?_ ?_ ?_ ?_ files { items := items } s (by simpa using hfuel)
    ⟨h, hnone, fun _ hfile => absurd hfile List.not_mem_nil, List.Subset.refl _⟩)
  · rintro ending t ⟨hfinished, hcancelled⟩
    cases ending with
    | finished => exact (hfinished rfl).1
    | cancelled => exact hcancelled rfl
  · exact fun _ _ ht => ht
  · rintro pending ahead item left t ⟨ht, hpending, hahead, hleft⟩
    refine ⟨ht, hpending, fun file hfile => ?_, List.Subset.trans (List.subset_cons_self _ _) hleft⟩
    rcases List.mem_append.mp hfile with hfile | hfile
    · exact hahead file hfile
    · exact hread t item file ht (hleft List.mem_cons_self) (List.mem_singleton.mp hfile).symm
  · rintro pending next ahead left t ⟨ht, hpending, hahead, hleft⟩
    refine ⟨htake t pending next ht, ?_,
      fun file hfile => hahead file (List.mem_cons_of_mem _ hfile), hleft⟩
    cases next with
    | ready file =>
      exact List.forall_mem_append.mpr
        ⟨hpending, List.forall_mem_singleton.mpr (hahead file List.mem_cons_self)⟩
    | unreadable path => exact hpending
    | failed path e => exact hpending
  · rintro pending ahead left t _ ⟨ht, hpending, hrest⟩ _
    apply runs_imp _ _ _ (hwrite t pending ht hpending)
    · exact fun _ u hu => ⟨hu, hnone, hrest⟩
    · exact fun _ _ hu => hu
  · exact fun _ _ _ t ht _ => ht.1

/-- A run that is not cancelled does its deletions and renames, if there are any, and then goes
through the files that are left. -/
theorem runBatches_rule (plan : RunPlan) (changes : ChangeSet)
    (J : List String → RunState σ → Prop) (Q : Ending → RunState σ → Prop)
    (E : IndexError → RunState σ → Prop) (s : RunState σ)
    (hcancelled : s.world.isCancelled = true → Q .cancelled s)
    (hplain : changes.deleted = [] → changes.renamed = [] → J [] s)
    (hstructural : Runs (applyStructural setting plan changes) s J E)
    (hdrain : ∀ reindex t, J reindex t →
      Runs (drain setting plan (sortedPaths (changes.added ++ changes.modified ++ reindex)).length
        { items := (sortedPaths (changes.added ++ changes.modified ++ reindex)).map
            (WorkItem.ofPath t.manifest) }) t Q E) :
    Runs (runBatches setting plan changes) s Q E := by
  unfold runBatches
  rw [runs_bind, runs_get, runs_ite]
  refine ⟨fun hc => ?_, fun _ => ?_⟩
  · rw [runs_pure]
    exact hcancelled hc
  · split
    · rename_i hnone
      rw [Bool.and_eq_true, List.isEmpty_iff, List.isEmpty_iff] at hnone
      simp only [runs_bind, runs_pure, runs_get]
      exact hdrain [] s (hplain hnone.1 hnone.2)
    · simp only [runs_bind, runs_get]
      exact runs_imp _ _ _ hstructural hdrain fun _ _ h => h

/-- Without deletions and renames a run goes through its files at once. -/
theorem runBatches_plain (plan : RunPlan) (changes : ChangeSet) (Q : Ending → RunState σ → Prop)
    (E : IndexError → RunState σ → Prop) (s : RunState σ) (hdeleted : changes.deleted = [])
    (hrenamed : changes.renamed = []) (hcalm : s.world.isCancelled = false) :
    Runs (runBatches setting plan changes) s Q E ↔
      Runs (drain setting plan (sortedPaths (changes.added ++ changes.modified)).length
        { items := (sortedPaths (changes.added ++ changes.modified)).map
            (WorkItem.ofPath s.manifest) }) s Q E := by
  unfold runBatches
  rw [runs_bind, runs_get, hcalm, hdeleted, hrenamed]
  simp only [Bool.false_eq_true, if_false, List.isEmpty_nil, Bool.and_self, if_true, runs_bind,
    runs_pure, runs_get, List.append_nil]

end RunState

end CodeIndex
