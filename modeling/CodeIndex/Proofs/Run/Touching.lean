import CodeIndex.Proofs.Run.Rules

/-!
What calls to the store and saves of state come to in any surroundings, with a tree that changes
meanwhile and with calls and writes that fail. They touch the disk and the store; the provider, the
clock and the cancellation of the run are no concern of theirs.
-/

namespace CodeIndex

namespace World

variable {σ α : Type} {w w' w'' : World σ}

def Touched (w w' : World σ) : Prop :=
  ∃ disk store calls moments,
    w' = { w with disk := disk, store := store, storeCalls := calls, moments := moments }

theorem Touched.refl (w : World σ) : Touched w w := ⟨_, _, _, _, rfl⟩

theorem Touched.trans (h : Touched w w') (h' : Touched w' w'') : Touched w w'' := by
  obtain ⟨_, _, _, _, rfl⟩ := h
  obtain ⟨disk, store, calls, moments, rfl⟩ := h'
  exact ⟨disk, store, calls, moments, rfl⟩

theorem Touched.requests (h : Touched w w') : w'.requests = w.requests := by
  obtain ⟨_, _, _, _, rfl⟩ := h
  rfl

variable (env : Surroundings)

/-- A call that comes to a value has been made, with what it does to the store. -/
theorem reachOne_touches (call : StoreCall) (x : StoreM σ α) (w : World σ) :
    Runs (reachOne env call x) w (fun a w' => Touched w w' ∧ x.run w.store = (.ok a, w'.store))
      fun _ w' => Touched w w' := by
  apply runs_reachOne env
  · exact fun _ _ => ⟨_, _, _, _, rfl⟩
  · exact fun _ _ => runs_imp _ _ _ (runs_self x) (fun _ _ hran => ⟨⟨_, _, _, _, rfl⟩, hran⟩)
      fun _ _ _ => ⟨_, _, _, _, rfl⟩

theorem reachOne_touched {w : World σ} (call : StoreCall) (x : StoreM σ α) (w' : World σ)
    (h : Touched w w') :
    Runs (reachOne env call x) w' (fun _ w'' => Touched w w'') fun _ w'' => Touched w w'' :=
  runs_imp _ _ _ (reachOne_touches env call x w') (fun _ _ h' => h.trans h'.1)
    fun _ _ h' => h.trans h'

theorem deleteFile_touches (store : VectorStore σ) (path : String) (w : World σ) :
    Runs ((reach env store).deleteFile path) w (fun _ w' => Touched w w')
      fun _ w' => Touched w w' :=
  deleteFile_kept env store (Touched w) (reachOne_touched env) w (.refl w) path

theorem renameFile_touches (store : VectorStore σ) (source target : String) (had : Bool)
    (w : World σ) :
    Runs ((reach env store).renameFile source target had) w (fun _ w' => Touched w w')
      fun _ w' => Touched w w' :=
  renameFile_kept env store (Touched w) (reachOne_touched env) w (.refl w) source target had

theorem save_touches (directory name text : String) (w : World σ) :
    Runs (save env directory name text) w (fun _ w' => Touched w w' ∧ w'.store = w.store)
      fun _ w' => Touched w w' ∧ w'.store = w.store :=
  save_kept env (fun w' => Touched w w' ∧ w'.store = w.store)
    (fun _ _ h => ⟨h.1.trans ⟨_, _, _, _, rfl⟩, h.2⟩) w ⟨.refl w, rfl⟩ directory name text

end World

namespace RunState

variable {σ : Type} (setting : RunSetting σ)

theorem forget_touches (path : String) (s : RunState σ) :
    Runs (forget setting path) s (fun _ t => s.world.Touched t.world)
      fun _ t => s.world.Touched t.world := by
  rw [runs_forget]
  exact World.deleteFile_touches setting.env setting.store path s.world

theorem relocate_touches (plan : RunPlan) (source target : String) (s : RunState σ) :
    Runs (relocate setting plan source target) s (fun _ t => s.world.Touched t.world)
      fun _ t => s.world.Touched t.world := by
  rw [runs_relocate]
  exact World.renameFile_touches setting.env setting.store source target _ s.world

/-- A commit counts the batch and records it in the checkpoint; store and manifest stay as they
are. -/
theorem commitBatch_touches (files : List String) (s : RunState σ) :
    Runs (commitBatch setting files) s
      (fun _ t => s.world.Touched t.world ∧ t.world.store = s.world.store ∧
        t.manifest = s.manifest ∧ t.optimizer = s.optimizer ∧
        t.result = { s.result with batches := s.result.batches + 1 })
      fun _ t => s.world.Touched t.world := by
  rw [runs_commitBatch]
  apply runs_imp _ _ _ (World.save_touches setting.env _ _ _ s.world)
  · rintro _ w ⟨hw, hstore⟩
    apply runs_imp _ _ _ (World.save_touches setting.env _ _ _ w)
    · rintro _ v ⟨hv, hstore'⟩
      have hmarked : v.Touched (v.mark .batchSaved) := ⟨_, _, _, _, rfl⟩
      exact ⟨(hw.trans hv).trans hmarked, hstore'.trans hstore, rfl, rfl, rfl⟩
    · exact fun _ _ hv => hw.trans hv.1
  · exact fun _ _ hw => hw.1

/-- Deletions and renames ask nothing of the provider, whatever happens meanwhile and however they
end. -/
theorem applyStructural_touches (plan : RunPlan) (changes : ChangeSet) (s : RunState σ) :
    Runs (applyStructural setting plan changes) s (fun _ t => s.world.Touched t.world)
      fun _ t => s.world.Touched t.world := by
  have hnext {α : Type} (x : RunM (RunState σ) α) (t : RunState σ)
      (hx : Runs x t (fun _ u => t.world.Touched u.world) fun _ u => t.world.Touched u.world)
      (ht : s.world.Touched t.world) :
      Runs x t (fun _ u => s.world.Touched u.world) fun _ u => s.world.Touched u.world :=
    runs_imp _ _ _ hx (fun _ _ hu => ht.trans hu) fun _ _ hu => ht.trans hu
  apply runs_imp _ _ _ (applyStructural_keeps setting plan changes
    (fun _ t => s.world.Touched t.world) (fun t => s.world.Touched t.world) _ s ⟨_, _, _, _, rfl⟩
    (fun _ path t ht => hnext _ t (forget_touches setting path t) ht)
    (fun _ source target t ht => hnext _ t (relocate_touches setting plan source target t) ht)
    (fun _ _ _ _ _ _ _ ht => ht) ?_ ?_)
  · exact fun _ _ ht => ht.1
  · exact fun _ _ ht => ht
  · intro touched t ht
    apply hnext _ t _ ht
    exact runs_imp _ _ _ (commitBatch_touches setting touched t) (fun _ _ hu => hu.1)
      fun _ _ hu => hu
  · intro t u ht hcounted
    obtain ⟨_, _, rfl⟩ := hcounted.rest
    exact ht

end RunState

end CodeIndex
