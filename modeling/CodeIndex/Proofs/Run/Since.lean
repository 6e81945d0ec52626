import CodeIndex.Proofs.Run.Saving
import CodeIndex.Proofs.State.Files

namespace CodeIndex

open StateDir

namespace World

variable {σ α : Type}

theorem unixTime_storable (w : World σ) (h : w.clock.Valid) : w.unixTime.Storable :=
  Timestamp.age_secs_lt w.clock h

def Called (w w' : World σ) : Prop :=
  ∃ store calls moments, w' = { w with store := store, storeCalls := calls, moments := moments }

theorem Called.refl (w : World σ) : Called w w := ⟨_, _, _, rfl⟩

theorem Called.trans {w w' w'' : World σ} (h : Called w w') (h' : Called w' w'') :
    Called w w'' := by
  obtain ⟨_, _, _, rfl⟩ := h
  obtain ⟨store, calls, moments, rfl⟩ := h'
  exact ⟨store, calls, moments, rfl⟩

variable (env : Surroundings) (hstill : env.Still) (store : VectorStore σ)

include hstill

theorem reachOne_called {w : World σ} (call : StoreCall) (x : StoreM σ α) (w' : World σ)
    (h : Called w w') :
    Runs (reachOne env call x) w' (fun _ w'' => Called w w'') (fun _ w'' => Called w w'') := by
  apply runs_reachOne_still env hstill
  · exact fun _ _ => h.trans ⟨_, _, _, rfl⟩
  · exact fun _ => runs_any _ _ _ _ (fun _ _ => h.trans ⟨_, _, _, rfl⟩)
      (fun _ _ => h.trans ⟨_, _, _, rfl⟩)

theorem deleteFile_called (path : String) (w : World σ) :
    Runs ((reach env store).deleteFile path) w (fun _ w' => Called w w')
      (fun _ w' => Called w w') :=
  deleteFile_kept env store (Called w) (reachOne_called env hstill) w (.refl w) path

theorem renameFile_called (source target : String) (had : Bool) (w : World σ) :
    Runs ((reach env store).renameFile source target had) w (fun _ w' => Called w w')
      (fun _ w' => Called w w') :=
  renameFile_kept env store (Called w) (reachOne_called env hstill) w (.refl w) source target had

theorem updateFile_called (path : String) (previous current : Std.ExtTreeSet String)
    (embedded : List EmbeddedEntity) (hasRecord : Bool) (w : World σ) :
    Runs ((reach env store).updateFile path previous current embedded hasRecord) w
      (fun _ w' => Called w w') (fun _ w' => Called w w') :=
  updateFile_kept env store (Called w) (reachOne_called env hstill) w (.refl w) path previous
    current embedded hasRecord

end World

namespace Checkpoint

structure Continues (c c' : Checkpoint) : Prop where
  schema : c'.schemaVersion = c.schemaVersion
  runId : c'.runId = c.runId
  last : c'.lastIndexedCommit = c.lastIndexedCommit
  target : c'.targetCommit = c.targetCommit
  started : c'.startedAt = c.startedAt

theorem Continues.refl (c : Checkpoint) : Continues c c := ⟨rfl, rfl, rfl, rfl, rfl⟩

theorem Continues.trans {c c' c'' : Checkpoint} (h : Continues c c') (h' : Continues c' c'') :
    Continues c c'' :=
  ⟨h'.schema.trans h.schema, h'.runId.trans h.runId, h'.last.trans h.last,
    h'.target.trans h.target, h'.started.trans h.started⟩

end Checkpoint

namespace RunState

variable {σ : Type} (setting : RunSetting σ) {home : Location}

section Relocated

variable (m : Manifest) (plan : RunPlan) (source target : String) (now : Duration)

/-- The record of a file that was moved stands under its new path only. -/
theorem get?_relocated (r : FileRecord) (hr : m.get? source = some r) (hne : source ≠ target)
    (p : String) :
    (relocated m plan source target now).get? p =
      if target = p then some { r with
        path := target
        lastSeenCommit := plan.head.or r.lastSeenCommit
        diverged := plan.isDiverged target }
      else if source = p then none
      else m.get? p := by
  have hcleared (q : String) : (if (m.get? target).isSome then m.removeFile target now
      else m).get? q = if target = q then none else m.get? q := by
    split
    · rw [Manifest.get?_removeFile]
    · rename_i hnone
      split
      · rename_i heq
        rw [← heq]
        simpa using hnone
      · rfl
  have hsource : (if (m.get? target).isSome then m.removeFile target now else m).get? source =
      some r := by
    rw [hcleared, if_neg (Ne.symm hne), hr]
  unfold relocated
  dsimp only
  rw [Manifest.get?_setDiverged, Manifest.get?_renameFile _ _ _ _ _ r hsource, hcleared]
  by_cases htarget : target = p
  · simp only [if_pos htarget, Option.map_some]
  · simp only [if_neg htarget]

theorem get?_relocated_self (path : String) (h : (m.get? path).isSome) (p : String) :
    (relocated m plan path path now).get? p = if path = p then none else m.get? p := by
  have hnone : (m.removeFile path now).get? path = none := by
    rw [Manifest.get?_removeFile, if_pos rfl]
  have hstay : (m.removeFile path now).renameFile path path plan.head now =
      m.removeFile path now := by
    unfold Manifest.renameFile
    rw [hnone]
  unfold relocated
  dsimp only
  rw [if_pos h, hstay, Manifest.get?_setDiverged, Manifest.get?_removeFile]
  split <;> rfl

theorem get?_relocated_other (h : (m.get? source).isSome) (p : String) (hsource : source ≠ p)
    (htarget : target ≠ p) : (relocated m plan source target now).get? p = m.get? p := by
  by_cases hself : source = target
  · subst hself
    rw [get?_relocated_self m plan now source h, if_neg hsource]
  · obtain ⟨r, hr⟩ := Option.isSome_iff_exists.mp h
    rw [get?_relocated m plan source target now r hr hself, if_neg htarget, if_neg hsource]

theorem relocated_keyed (h : m.Keyed) : (relocated m plan source target now).Keyed := by
  unfold relocated
  dsimp only
  apply Manifest.keyed_setDiverged
  apply Manifest.keyed_renameFile
  split
  · exact Manifest.keyed_removeFile m target now h
  · exact h

theorem relocated_storable (h : m.Storable) (hnow : now.Storable) :
    (relocated m plan source target now).Storable := by
  unfold relocated
  dsimp only
  apply Manifest.Storable.setDiverged
  apply Manifest.Storable.renameFile _ _ _ _ _ hnow
  split
  · exact h.removeFile target now hnow
  · exact h

end Relocated

structure Since (home : Location) (s t : RunState σ) : Prop where
  same : Same home s.world.disk t.world.disk
  clock : s.world.clock.Valid → t.world.clock.Valid
  storable : s.world.clock.Valid → s.manifest.Storable → t.manifest.Storable
  keyed : s.manifest.Keyed → t.manifest.Keyed
  missed : s.core.missed ≤ t.core.missed
  checkpoint : s.checkpoint.Continues t.checkpoint
  timestamp : s.world.clock.Valid → s.checkpoint.timestamp.Valid → t.checkpoint.timestamp.Valid

theorem Since.refl {s : RunState σ} (h : ∀ place ∈ places home, s.world.disk.IsLeaf place) :
    Since home s s :=
  ⟨Disk.SameBut.refl h, id, fun _ h => h, id, Nat.le_refl _, .refl _, fun _ h => h⟩

theorem Since.trans {s t u : RunState σ} (h : Since home s t) (h' : Since home t u) :
    Since home s u where
  same := h.same.trans h'.same
  clock hc := h'.clock (h.clock hc)
  storable hc hs := h'.storable (h.clock hc) (h.storable hc hs)
  keyed hk := h'.keyed (h.keyed hk)
  missed := Nat.le_trans h.missed h'.missed
  checkpoint := h.checkpoint.trans h'.checkpoint
  timestamp hc ht := h'.timestamp (h.clock hc) (h.timestamp hc ht)

theorem core_disk {s t : RunState σ} (h : t.core = s.core) : t.world.disk = s.world.disk :=
  congrArg Core.disk h

theorem core_manifest {s t : RunState σ} (h : t.core = s.core) : t.manifest = s.manifest :=
  congrArg Core.manifest h

theorem core_missed {s t : RunState σ} (h : t.core = s.core) : t.core.missed = s.core.missed :=
  congrArg Core.missed h

theorem Quiet.since {s t u : RunState σ} (h : Since home s t) (hq : Quiet setting.env t u) :
    Since home s u := by
  have hleaf := h.same.after
  have hm := core_manifest hq.core
  refine h.trans ⟨?_, ?_, fun _ h => hm ▸ h, fun h => hm ▸ h, ?_, ?_, fun _ ht => ?_⟩
  · rw [core_disk hq.core]
    exact Disk.SameBut.refl hleaf
  · exact hq.clock _ fun c d hc hyear => Timestamp.advance_valid c d hc hyear
  · exact Nat.le_of_eq (core_missed hq.core).symm
  · rw [hq.checkpoint]
    exact .refl _
  · rw [hq.checkpoint]
    exact ht

theorem Counted.since {s t u : RunState σ} (h : Since home s t) (hc : Counted t u) :
    Since home s u := by
  obtain ⟨⟨result, progress, rfl⟩, hfailed, _⟩ := hc
  refine h.trans ⟨Disk.SameBut.refl h.same.after, id, fun _ h => h, id, ?_, .refl _,
    fun _ ht => ht⟩
  exact Nat.le_of_eq (congrArg (· + t.unreadable) hfailed.symm)

/-- A change of the manifest after calls to the store leads to a later state. -/
theorem Since.called {s t : RunState σ} (h : Since home s t) {w : World σ}
    (hw : t.world.Called w) (m : Manifest) (hkeyed : t.manifest.Keyed → m.Keyed)
    (hstorable : w.unixTime.Storable → t.manifest.Storable → m.Storable) :
    Since home s { t with world := w, manifest := m } := by
  have hleaf := h.same.after
  obtain ⟨store, calls, moments, rfl⟩ := hw
  exact h.trans ⟨Disk.SameBut.refl hleaf, id,
    fun hc hs => hstorable (World.unixTime_storable t.world hc) hs, hkeyed, Nat.le_refl _,
    .refl _, fun _ ht => ht⟩

theorem since_addFailure {s t : RunState σ} (h : Since home s t) (path : String)
    (e : IndexError) : Since home s (t.addFailure path e) := by
  refine h.trans ⟨Disk.SameBut.refl h.same.after, id, fun _ h => h, id, ?_, .refl _,
    fun _ ht => ht⟩
  rw [core_addFailure]
  exact Nat.le_succ _

theorem since_addUnreadable {s t : RunState σ} (h : Since home s t) :
    Since home s t.addUnreadable := by
  refine h.trans ⟨Disk.SameBut.refl h.same.after, id, fun _ h => h, id, ?_, .refl _,
    fun _ ht => ht⟩
  rw [core_addUnreadable]
  exact Nat.le_succ _

theorem since_takePrepared {s t : RunState σ} (h : Since home s t) (pending : List PreparedFile)
    (next : Prepared) : Since home s (takePrepared t pending next).1 := by
  have hquiet (u : RunState σ) (progress : Progress) (hu : Since home s u) :
      Since home s { u with progress := progress } :=
    hu.trans ⟨Disk.SameBut.refl hu.same.after, id, fun _ h => h, id, Nat.le_refl _, .refl _,
      fun _ ht => ht⟩
  cases next with
  | ready file => exact hquiet _ _ h
  | unreadable path => exact hquiet _ _ (since_addUnreadable h)
  | failed path e => exact hquiet _ _ (since_addFailure h path e)

theorem Committed.since {s t u : RunState σ} {files : List String} (h : Since home s t)
    (hc : Committed home files t u) : Since home s u := by
  have hm : u.manifest = t.manifest := congrArg Core.manifest hc.core
  refine h.trans ⟨hc.same, fun hv => by rw [hc.clock]; exact hv, fun _ h => hm ▸ h,
    fun h => hm ▸ h, ?_, ?_, fun hv _ => ?_⟩
  · exact Nat.le_of_eq (congrArg Core.missed hc.core).symm
  · rw [hc.checkpoint]
    exact ⟨rfl, rfl, rfl, rfl, rfl⟩
  · rw [hc.checkpoint]
    exact hv

end RunState

end CodeIndex
