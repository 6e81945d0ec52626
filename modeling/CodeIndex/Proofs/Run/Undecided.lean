import CodeIndex.Proofs.Run.Since

/-!
What is decided only at the end of a run: the outcome of its result, and the commit that its
checkpoint refers to. The batches leave both alone, however they come out and whatever happens
around them.
-/

namespace CodeIndex

/-- The end of a run that went through all its files does not abort it. -/
theorem IndexResult.finish_ended {r : IndexResult} (h : r.status ≠ .aborted) :
    r.finish.status ≠ .aborted := by
  unfold IndexResult.finish
  rw [if_neg h]
  dsimp only
  split <;> exact fun h => by cases h

namespace RunState

variable {σ : Type} {setting : RunSetting σ} {s₀ s t : RunState σ}

structure Undecided (s t : RunState σ) : Prop where
  status : t.result.status = s.result.status
  reference : t.checkpoint.lastIndexedCommit = s.checkpoint.lastIndexedCommit

theorem Undecided.refl (s : RunState σ) : Undecided s s := ⟨rfl, rfl⟩

theorem Undecided.counted (h : Undecided s₀ s) (ht : Counted s t) : Undecided s₀ t := by
  obtain ⟨⟨_, _, rfl⟩, _, hstatus, _⟩ := ht
  exact ⟨hstatus.trans h.status, h.reference⟩

theorem Undecided.embedded (h : Undecided s₀ s) (ht : Embedded s t) : Undecided s₀ t := by
  obtain ⟨_, _, _, rfl⟩ := ht
  exact ⟨h.status, h.reference⟩

theorem Undecided.taken (h : Undecided s₀ s) (pending : List PreparedFile) (next : Prepared) :
    Undecided s₀ (takePrepared s pending next).1 := by
  cases next <;> exact ⟨h.status, h.reference⟩

theorem forget_undecided (path : String) (h : Undecided s₀ s) :
    Runs (forget setting path) s (fun _ t => Undecided s₀ t) fun _ t => Undecided s₀ t := by
  rw [runs_forget]
  exact runs_any _ _ _ _ (fun _ _ => ⟨h.status, h.reference⟩) fun _ _ => ⟨h.status, h.reference⟩

theorem relocate_undecided (plan : RunPlan) (source target : String) (h : Undecided s₀ s) :
    Runs (relocate setting plan source target) s (fun _ t => Undecided s₀ t)
      fun _ t => Undecided s₀ t := by
  rw [runs_relocate]
  exact runs_any _ _ _ _ (fun _ _ => ⟨h.status, h.reference⟩) fun _ _ => ⟨h.status, h.reference⟩

theorem writeFile_undecided (plan : RunPlan) (file : PreparedFile) (vectors : List Embedding)
    (h : Undecided s₀ s) :
    Runs (writeFile setting plan file vectors) s (fun _ t => Undecided s₀ t)
      fun _ t => Undecided s₀ t := by
  rw [runs_writeFile]
  exact runs_any _ _ _ _ (fun _ _ => ⟨h.status, h.reference⟩) fun _ _ => ⟨h.status, h.reference⟩

/-- A commit records the batch in the checkpoint, and counts it. -/
theorem commitBatch_undecided (files : List String) (h : Undecided s₀ s) :
    Runs (commitBatch setting files) s (fun _ t => Undecided s₀ t) fun _ t => Undecided s₀ t := by
  rw [runs_commitBatch]
  apply runs_any
  · intro _ w
    exact runs_any _ _ _ _ (fun _ _ => ⟨h.status, h.reference⟩) fun _ _ => ⟨h.status, h.reference⟩
  · exact fun _ _ => ⟨h.status, h.reference⟩

theorem applyStructural_undecided (plan : RunPlan) (changes : ChangeSet) (h : Undecided s₀ s) :
    Runs (applyStructural setting plan changes) s (fun _ t => Undecided s₀ t)
      fun _ t => Undecided s₀ t := by
  apply runs_imp _ _ _ (applyStructural_keeps setting plan changes (fun _ t => Undecided s₀ t)
    (fun t => Undecided s₀ t) _ s ⟨h.status, h.reference⟩
    (fun _ path t ht => forget_undecided path ht)
    (fun _ source target t ht => relocate_undecided plan source target ht)
    (fun _ _ _ _ t _ _ ht => ⟨ht.status, ht.reference⟩)
    (fun touched t ht => commitBatch_undecided touched ht) fun t u ht hu => ht.counted hu)
  · exact fun _ _ ht => ht.1
  · exact fun _ _ ht => ht

theorem writeBatch_undecided (plan : RunPlan) (todo : List PreparedFile) (h : Undecided s₀ s) :
    Runs (writeBatch setting plan todo) s (fun _ t => Undecided s₀ t)
      fun _ t => Undecided s₀ t := by
  have hbegun : Undecided s₀ (s.begunBatch (todo.map (·.path))) := ⟨h.status, h.reference⟩
  apply writeBatch_keeps setting plan todo (fun _ => True) (fun _ t => Undecided s₀ t)
    (fun t => Undecided s₀ t) _ s (fun _ _ => trivial) ?_
    (fun _ _ _ t ht => ⟨ht.status, ht.reference⟩)
    (fun _ vectors file t _ ht => writeFile_undecided plan file vectors ht)
    (fun done t u ht hu => commitBatch_undecided done (ht.counted hu)) fun t u ht hu => ht.counted hu
  apply runs_imp _ _ _ (embedAll_rule setting (fun _ _ => True) (textsOf todo) _
    (fun _ _ _ _ => trivial) (fun _ _ _ _ _ => ⟨trivial, trivial⟩) trivial)
  · exact fun _ t ht => hbegun.embedded ht.1
  · exact fun _ t ht => hbegun.embedded ht.1

/-- The batches of a run decide neither its outcome nor the commit that it refers to. -/
theorem runBatches_undecided (plan : RunPlan) (changes : ChangeSet) (s : RunState σ) :
    Runs (runBatches setting plan changes) s (fun _ t => Undecided s t)
      fun _ t => Undecided s t := by
  apply runBatches_rule setting plan changes (fun _ t => Undecided s t)
  · exact fun _ => .refl s
  · exact fun _ _ => .refl s
  · exact applyStructural_undecided plan changes (.refl s)
  · intro reindex t ht
    exact drain_files setting plan (fun _ => True) (Undecided s) (fun _ u => Undecided s u) _
      (fun _ _ _ _ _ _ => trivial) (fun _ pending next hu => hu.taken pending next)
      (fun _ pending hu _ => writeBatch_undecided plan pending hu) _
      (Nat.le_of_eq (List.length_map _)) t ht

end RunState

end CodeIndex
