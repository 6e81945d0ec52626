import CodeIndex.Proofs.Run.Batched
import CodeIndex.Proofs.Run.Division
import CodeIndex.Proofs.Run.Execute

/-!
What readers are told of a run. The files that are done never outnumber the files of the change set,
and in the end they are all done unless a renamed file cannot be read. Entities are found as those
that are to be embedded, and done as all those of the files that are written: more are done than
found as soon as the written files keep more entities than were lost with an embedding.
-/

namespace CodeIndex

namespace RunState

variable {σ : Type} (setting : RunSetting σ) (plan : RunPlan)

/-! ### What tells readers nothing -/

structure Silent (s t : RunState σ) : Prop where
  progress : t.progress = s.progress
  unreadable : t.unreadable = s.unreadable

theorem Silent.trans {s t u : RunState σ} (h : s.Silent t) (h' : t.Silent u) : s.Silent u :=
  ⟨h'.progress.trans h.progress, h'.unreadable.trans h.unreadable⟩

theorem writeFile_silent (file : PreparedFile) (vectors : List Embedding) (s : RunState σ) :
    Runs (writeFile setting plan file vectors) s (fun _ t => s.Silent t) fun _ t => s.Silent t := by
  rw [runs_writeFile]
  exact runs_any _ _ _ _ (fun _ _ => ⟨rfl, rfl⟩) fun _ _ => ⟨rfl, rfl⟩

theorem embedAll_silent (texts : List String) (s : RunState σ) :
    Runs (embedAll setting texts) s (fun _ t => s.Silent t) fun _ t => s.Silent t := by
  apply runs_imp _ _ _ (embedAll_store setting texts s)
  · rintro _ t ⟨⟨_, _, _, rfl⟩, _⟩
    exact ⟨rfl, rfl⟩
  · rintro _ t ⟨⟨_, _, _, rfl⟩, _⟩
    exact ⟨rfl, rfl⟩

theorem commitBatch_silent (files : List String) (s : RunState σ) :
    Runs (commitBatch setting files) s (fun _ t => s.Silent t) fun _ t => s.Silent t := by
  rw [runs_commitBatch]
  exact runs_any _ _ _ _ (fun _ _ => runs_any _ _ _ _ (fun _ _ => ⟨rfl, rfl⟩) fun _ _ => ⟨rfl, rfl⟩)
    fun _ _ => ⟨rfl, rfl⟩

section Structural

/-- Some paths and renames are left of the changes. The others are settled, to be indexed anew, or
left out as they cannot be read; readers have not been told yet. -/
structure Settling (changes : ChangeSet) (s : RunState σ) (found : Restructured)
    (paths : List String) (renames : List (String × String)) (t : RunState σ) : Prop where
  progress : t.progress = s.progress
  unreadable : s.unreadable ≤ t.unreadable
  count : found.settled + found.reindex.length + t.unreadable + paths.length + renames.length =
    changes.deleted.length + changes.renamed.length + s.unreadable
  targets : (found.reindex ++ renames.map (·.2)).Sublist (changes.renamed.map (·.2))

variable {changes : ChangeSet} {s t : RunState σ} {found : Restructured} {paths : List String}
  {renames : List (String × String)}

theorem Settling.silent {u : RunState σ} (h : Settling changes s found paths renames t)
    (hu : t.Silent u) : Settling changes s found paths renames u where
  progress := hu.progress.trans h.progress
  unreadable := hu.unreadable ▸ h.unreadable
  count := hu.unreadable ▸ h.count
  targets := h.targets

theorem Settling.deleted {path : String} (h : Settling changes s found (path :: paths) renames t)
    (stats : WriteStats) : Settling changes s (found.deleted path stats) paths renames t where
  progress := h.progress
  unreadable := h.unreadable
  count := by
    have hcount := h.count
    simp only [Restructured.deleted, List.length_cons] at hcount ⊢
    omega
  targets := h.targets

section Rename

variable {source target : String}
  (h : Settling changes s found paths ((source, target) :: renames) t)

include h

theorem Settling.drop (found' : Restructured) (u : RunState σ) (hprogress : u.progress = t.progress)
    (hless : t.unreadable ≤ u.unreadable) (hreindex : found'.reindex = found.reindex)
    (hone : found'.settled + u.unreadable = found.settled + t.unreadable + 1) :
    Settling changes s found' paths renames u where
  progress := hprogress.trans h.progress
  unreadable := Nat.le_trans h.unreadable hless
  count := by
    have hcount := h.count
    rw [List.length_cons] at hcount
    rw [hreindex]
    omega
  targets := by
    rw [hreindex]
    exact ((List.sublist_cons_self _ _).append_left _).trans h.targets

theorem Settling.anew (found' : Restructured)
    (hreindex : found'.reindex = found.reindex ++ [target])
    (hsettled : found'.settled = found.settled) : Settling changes s found' paths renames t where
  progress := h.progress
  unreadable := h.unreadable
  count := by
    have hcount := h.count
    rw [List.length_cons] at hcount
    rw [hreindex, hsettled, List.length_append, List.length_singleton]
    omega
  targets := by
    rw [hreindex, List.append_assoc]
    exact h.targets

end Rename

end Structural

/-! ### Batches -/

def currentCount (files : List PreparedFile) : Nat :=
  (files.flatMap (·.currentIds.toList)).length

def Batch.kept (b : Batch σ) : List String := (b.written setting).flatMap (·.kept)

def Batch.lost (b : Batch σ) : List Entity :=
  match ((embedAll setting (textsOf b.files)).run b.begun).1 with
  | .ok _ => []
  | .error _ => b.files.flatMap (·.fresh)

/-- Files that are to be written without vectors have no new entities. -/
theorem freshCount_spared (e : IndexError) (files : List PreparedFile) :
    freshCount (files.filter (isWritten (some e))) = 0 := by
  have hnone : (files.filter (isWritten (some e))).flatMap (·.fresh) = [] := by
    apply List.flatMap_eq_nil_iff.mpr
    intro file hfile
    simpa [isWritten] using (List.mem_filter.mp hfile).2
  rw [freshCount, hnone, List.length_nil]

theorem currentCount_eq {force : Bool} (files : List PreparedFile)
    (h : ∀ file ∈ files, ∃ entities, file.Divided force entities) :
    currentCount files = freshCount files + (files.flatMap (·.kept)).length := by
  induction files with
  | nil => rfl
  | cons file files ih =>
    obtain ⟨entities, hfile⟩ := h file List.mem_cons_self
    have hsize := hfile.size_kept
    have hrest := ih fun f hf => h f (List.mem_cons_of_mem _ hf)
    unfold currentCount freshCount at hrest ⊢
    simp only [List.flatMap_cons, List.length_append, Std.ExtTreeSet.length_toList]
    omega

/-- What is done of a batch and what is lost are what was found of it and what is kept. -/
theorem Batch.balance {force : Bool} (b : Batch σ)
    (h : ∀ file ∈ b.files, ∃ entities, file.Divided force entities) :
    currentCount (b.written setting) + (b.lost setting).length =
      freshCount b.files + (b.kept setting).length := by
  have hcurrent := currentCount_eq (b.written setting) fun file hfile =>
    h file ((b.written_sublist setting).subset hfile)
  -- a failed embedding writes only files without new entities, and loses all the others
  have hfound : freshCount (b.written setting) + (b.lost setting).length = freshCount b.files := by
    unfold Batch.written Batch.lost
    cases ((embedAll setting (textsOf b.files)).run b.begun).1 with
    | ok _ => rfl
    | error e =>
      rw [freshCount_spared, Nat.zero_add]
      rfl
  unfold Batch.kept
  omega

/-- A batch is told of at its end, with all its files and with the entities of those written. -/
theorem writeBatch_told (files : List PreparedFile) (s : RunState σ) :
    Runs (writeBatch setting plan files) s
      (fun _ t => t.unreadable = s.unreadable ∧ t.progress = s.progress.batchDone files.length
        (currentCount (Batch.written setting ⟨files, s⟩)) (.ofMillis 1))
      fun _ t => t.progress = s.progress := by
  -- of the files to be written, those ahead of `rest` are counted
  apply writeBatch_counts setting plan files fun failure written _ rest t =>
    s.Silent t ∧ ∃ front, currentCount front = written.entities ∧
      front ++ rest.filter (isWritten failure) = Batch.written setting ⟨files, s⟩
  · apply runs_imp _ _ _ (runs_and _ _ _ (runs_self _)
      (embedAll_silent setting (textsOf files) (s.begunBatch (files.map (·.path)))))
    · rintro vectors t ⟨hran, ht⟩
      refine ⟨⟨ht.progress, ht.unreadable⟩, [], rfl, ?_⟩
      unfold Batch.written Batch.begun
      rw [hran]
      exact List.filter_eq_self.mpr fun _ _ => rfl
    · rintro e t ⟨hran, ht⟩
      refine ⟨⟨ht.progress, ht.unreadable⟩, [], rfl, ?_⟩
      unfold Batch.written Batch.begun
      rw [hran]
      rfl
  · rintro _ written _ file rest t e rfl hfresh ⟨ht, front, hcount, hfront⟩
    rw [filter_isWritten_skips hfresh] at hfront
    exact ⟨⟨ht.progress, ht.unreadable⟩, front, hcount, hfront⟩
  · rintro failure written vectors file rest t hcase ⟨ht, front, hcount, hfront⟩
    apply runs_imp _ _ _ (writeFile_silent setting plan file vectors t)
    · intro stats u hu
      refine ⟨ht.trans hu, front ++ [file], ?_, ?_⟩
      · unfold currentCount at hcount ⊢
        rw [List.flatMap_append, List.length_append, hcount]
        simp [Written.add, Std.ExtTreeSet.length_toList]
      · rw [List.append_assoc, ← hfront, filter_isWritten_goes hcase]
        rfl
    · exact fun _ u hu => hu.progress.trans ht.progress
  · rintro failure written vectors t ⟨ht, front, hcount, hfront⟩
    rw [List.filter_nil, List.append_nil] at hfront
    apply runs_imp _ _ _ (commitBatch_silent setting written.done (t.processed written.done.length))
    · intro _ u hu
      have hsilent : s.Silent u := ht.trans ⟨hu.progress, hu.unreadable⟩
      refine ⟨hsilent.unreadable, ?_⟩
      show u.progress.batchDone _ _ _ = _
      rw [hsilent.progress, ← hfront, hcount]
    · exact fun _ u hu => hu.progress.trans ht.progress

/-! ### What is told along the trace -/

structure Unbatched (files : Nat) (p : Progress) : Prop where
  total : p.current.filesTotal = files
  entities : p.current.entitiesTotal = 0 ∧ p.current.entitiesDone = 0
  batches : p.current.batchesDone = 0
  visible : p.visible = p.current
  published : ∀ snap ∈ p.published, snap.filesTotal = files ∧
    snap.filesDone ≤ p.current.filesDone ∧ snap.entitiesDone = 0

theorem Unbatched.settled {files : Nat} {p : Progress} (h : Unbatched files p) (n : Nat) :
    Unbatched files (p.settled n) where
  total := h.total
  entities := h.entities
  batches := h.batches
  visible := rfl
  published snap hsnap := by
    rcases List.mem_cons.mp hsnap with rfl | hsnap
    · exact ⟨h.total, Nat.le_refl _, h.entities.2⟩
    · obtain ⟨htotal, hdone, hentities⟩ := h.published snap hsnap
      exact ⟨htotal, Nat.le_trans hdone (Nat.le_add_right _ _), hentities⟩

structure Told (files : Nat) (s : RunState σ) (outcomes : List Prepared) (batches : List (Batch σ))
    (pending : List PreparedFile) (t : RunState σ) : Prop where
  total : t.progress.current.filesTotal = files
  filesDone : t.progress.current.filesDone + pending.length =
    s.progress.current.filesDone + outcomes.length
  entitiesTotal : t.progress.current.entitiesTotal =
    freshCount (batches.flatMap (·.files) ++ pending)
  entitiesDone : t.progress.current.entitiesDone =
    currentCount (batches.flatMap (·.written setting))
  batchesDone : t.progress.current.batchesDone = batches.length
  unreadable : s.unreadable ≤ t.unreadable
  visible : pending = [] → t.progress.visible = t.progress.current
  published : ∀ snap ∈ t.progress.published, snap.filesTotal = files ∧
    snap.filesDone ≤ t.progress.current.filesDone ∧
    ∃ bs, bs <+: batches ∧ snap.entitiesDone = currentCount (bs.flatMap (·.written setting)) ∧
      freshCount (bs.flatMap (·.files)) ≤ snap.entitiesTotal
  shown : ∀ bs, bs <+: batches → bs ≠ [] → ∃ snap ∈ t.progress.published,
    snap.entitiesDone = currentCount (bs.flatMap (·.written setting)) ∧
      snap.entitiesTotal = freshCount (bs.flatMap (·.files))

variable {setting plan} {s t : RunState σ} {files : Nat} {outcomes : List Prepared}
  {batches : List (Batch σ)} {pending : List PreparedFile}

theorem freshCount_append (xs ys : List PreparedFile) :
    freshCount (xs ++ ys) = freshCount xs + freshCount ys := by
  simp [freshCount]

theorem currentCount_append (xs ys : List PreparedFile) :
    currentCount (xs ++ ys) = currentCount xs + currentCount ys := by
  simp [currentCount]

/-- A file that is ready is found, and readers are told later. -/
theorem Told.found (h : Told setting files s outcomes batches pending t) (file : PreparedFile) :
    Told setting files s (outcomes ++ [.ready file]) batches (pending ++ [file])
      { t with progress := t.progress.found file.fresh.length } where
  total := h.total
  filesDone := by
    have hdone := h.filesDone
    simp only [Progress.found, List.length_append, List.length_singleton]
    omega
  entitiesTotal := by
    have htotal := h.entitiesTotal
    have hone : freshCount [file] = file.fresh.length := by simp [freshCount]
    rw [← List.append_assoc, freshCount_append, ← htotal, hone]
    rfl
  entitiesDone := h.entitiesDone
  batchesDone := h.batchesDone
  unreadable := h.unreadable
  visible hnone := absurd hnone (List.append_ne_nil_of_right_ne_nil _ (List.cons_ne_nil _ _))
  published := h.published
  shown := h.shown

theorem Told.settled (h : Told setting files s outcomes batches pending t) (next : Prepared)
    (u : RunState σ) (hunreadable : t.unreadable ≤ u.unreadable) :
    Told setting files s (outcomes ++ [next]) batches pending
      { u with progress := t.progress.settled 1 } where
  total := h.total
  filesDone := by
    have hdone := h.filesDone
    simp only [Progress.settled, Progress.publish, List.length_append, List.length_singleton]
    omega
  entitiesTotal := h.entitiesTotal
  entitiesDone := h.entitiesDone
  batchesDone := h.batchesDone
  unreadable := Nat.le_trans h.unreadable hunreadable
  visible _ := rfl
  published snap hsnap := by
    rcases List.mem_cons.mp hsnap with rfl | hsnap
    · -- the entities at hand are found, but are in no batch yet
      refine ⟨h.total, Nat.le_refl _, batches, List.prefix_refl _, h.entitiesDone, ?_⟩
      show _ ≤ t.progress.current.entitiesTotal
      rw [h.entitiesTotal, freshCount_append]
      exact Nat.le_add_right _ _
    · obtain ⟨htotal, hdone, hbatches⟩ := h.published snap hsnap
      exact ⟨htotal, Nat.le_trans hdone (Nat.le_add_right _ _), hbatches⟩
  shown bs hbs hsome := by
    obtain ⟨snap, hsnap, hshown⟩ := h.shown bs hbs hsome
    exact ⟨snap, List.mem_cons_of_mem _ hsnap, hshown⟩

/-- A batch is told of with its files and with the entities of those that are written. -/
theorem Told.batchDone (h : Told setting files s outcomes batches pending t) (b : Batch σ)
    (hfiles : b.files = pending) (u : RunState σ) (hunreadable : u.unreadable = t.unreadable) :
    Told setting files s outcomes (batches ++ [b]) []
      { u with
        progress := t.progress.batchDone pending.length
          (currentCount (b.written setting)) (.ofMillis 1) } := by
  have htotal : t.progress.current.entitiesTotal =
      freshCount ((batches ++ [b]).flatMap (·.files)) := by
    rw [h.entitiesTotal, ← hfiles, List.flatMap_append, List.flatMap_singleton]
  have hdone : t.progress.current.entitiesDone + currentCount (b.written setting) =
      currentCount ((batches ++ [b]).flatMap (·.written setting)) := by
    rw [h.entitiesDone, List.flatMap_append, List.flatMap_singleton, currentCount_append]
  constructor
  · exact h.total
  · exact h.filesDone
  · rw [List.append_nil]
    exact htotal
  · exact hdone
  · rw [List.length_append, ← h.batchesDone]
    rfl
  · exact hunreadable ▸ h.unreadable
  · exact fun _ => rfl
  · intro snap hsnap
    -- the snapshot of this batch, and those before it
    rcases List.mem_cons.mp hsnap with rfl | hsnap
    · exact ⟨h.total, Nat.le_refl _, _, List.prefix_refl _, hdone, Nat.le_of_eq htotal.symm⟩
    · obtain ⟨hfiles, hbefore, bs, hbs, hentities⟩ := h.published snap hsnap
      exact ⟨hfiles, Nat.le_trans hbefore (Nat.le_add_right _ _), bs,
        hbs.trans (List.prefix_append _ _), hentities⟩
  · intro bs hbs hsome
    rcases List.prefix_concat_iff.mp hbs with rfl | hbs
    · exact ⟨_, List.mem_cons_self, hdone, htotal⟩
    · obtain ⟨snap, hsnap, hshown⟩ := h.shown bs hbs hsome
      exact ⟨snap, List.mem_cons_of_mem _ hsnap, hshown⟩

theorem Batched.told (h : Batched setting plan s outcomes batches pending t)
    (hs : Unbatched files s.progress) : Told setting files s outcomes batches pending t := by
  induction h with
  | begin =>
    refine ⟨hs.total, rfl, hs.entities.1, hs.entities.2, hs.batches, Nat.le_refl _,
      fun _ => hs.visible, fun snap hsnap => ?_, fun bs hbs hsome => ?_⟩
    · obtain ⟨htotal, hdone, hnone⟩ := hs.published snap hsnap
      exact ⟨htotal, hdone, [], List.prefix_refl _, hnone, Nat.zero_le _⟩
    · exact absurd (List.prefix_nil.mp hbs) hsome
  | take next _ _ ih =>
    cases next with
    | ready file => exact ih.found file
    | unreadable path => exact ih.settled (.unreadable path) _ (Nat.le_succ _)
    | failed path e => exact ih.settled (.failed path e) _ (Nat.le_refl _)
  | @write _ _ pending t u _ _ hran ih =>
    obtain ⟨hunreadable, hprogress⟩ :=
      runs_ok _ _ _ (writeBatch_told setting plan pending t) hran
    have htold := ih.batchDone ⟨pending, t⟩ rfl u hunreadable
    rw [← hprogress] at htold
    exact htold

/-! ### What is told of a run -/

variable (setting) in
/-- What readers see at the end of a run that is finished: all files are done if the run came upon
none that cannot be read, and all entities that were found if no embedding failed and no entity was
kept. -/
structure Complete (changes : ChangeSet) (unreadable : Nat) (batches : List (Batch σ))
    (t : RunState σ) : Prop where
  files : t.unreadable ≤ unreadable → changes.mentioned.Nodup →
    t.progress.visible.filesDone = t.progress.visible.filesTotal
  entities : (∀ b ∈ batches, b.lost setting = []) →
    (t.progress.visible.entitiesDone = t.progress.visible.entitiesTotal ↔
      ∀ b ∈ batches, b.kept setting = [])

variable (setting) in
theorem batches_balance {force : Bool} (bs : List (Batch σ))
    (h : ∀ b ∈ bs, ∀ file ∈ b.files, ∃ entities, file.Divided force entities) :
    currentCount (bs.flatMap (·.written setting)) + (bs.flatMap (·.lost setting)).length =
      freshCount (bs.flatMap (·.files)) + (bs.flatMap (·.kept setting)).length := by
  induction bs with
  | nil => rfl
  | cons b bs ih =>
    have hfirst := b.balance setting (h b List.mem_cons_self)
    have hrest := ih fun b' hb' => h b' (List.mem_cons_of_mem _ hb')
    simp only [List.flatMap_cons, List.length_append, currentCount_append, freshCount_append]
    omega

theorem Told.complete (h : Told setting changes.size s outcomes batches [] t)
    (hdivided : ∀ b ∈ batches, ∀ file ∈ b.files, ∃ entities, file.Divided plan.force entities)
    (unreadable : Nat) (hfiles : t.unreadable ≤ unreadable → changes.mentioned.Nodup →
      s.progress.current.filesDone + outcomes.length = changes.size) :
    Complete setting changes unreadable batches t := by
  have hvisible := h.visible rfl
  constructor
  · intro hread hnodup
    have hall := hfiles hread hnodup
    have hdone := h.filesDone
    rw [hvisible, h.total, ← hall]
    exact hdone
  · intro hnone
    have hbalance := batches_balance setting batches hdivided
    have hlost : batches.flatMap (·.lost setting) = [] := List.flatMap_eq_nil_iff.mpr hnone
    rw [hlost, List.length_nil, Nat.add_zero] at hbalance
    rw [hvisible, h.entitiesDone, h.entitiesTotal, List.append_nil, hbalance, Nat.add_eq_left,
      List.length_eq_zero_iff, List.flatMap_eq_nil_iff]

theorem Complete.silent {unreadable : Nat} {u : RunState σ}
    (h : Complete setting changes unreadable batches t) (hu : t.Silent u) :
    Complete setting changes unreadable batches u where
  files := by
    rw [hu.progress, hu.unreadable]
    exact h.files
  entities := by
    rw [hu.progress]
    exact h.entities

structure Started (changes : ChangeSet) (s : RunState σ) (reindex : List String) (t : RunState σ) :
    Prop where
  unbatched : Unbatched changes.size t.progress
  unreadable : s.unreadable ≤ t.unreadable
  count : t.progress.current.filesDone + reindex.length + t.unreadable =
    changes.deleted.length + changes.renamed.length + s.unreadable
  targets : reindex.Sublist (changes.renamed.map (·.2))

theorem Started.few {changes : ChangeSet} {reindex : List String}
    (h : Started changes s reindex t) :
    t.progress.current.filesDone +
        (sortedPaths (changes.added ++ changes.modified ++ reindex)).length ≤ changes.size := by
  have hpaths : (sortedPaths (changes.added ++ changes.modified ++ reindex)).length ≤
      (changes.added ++ changes.modified ++ reindex).length := by
    unfold sortedPaths
    rw [Std.ExtTreeSet.length_toList]
    exact Std.ExtTreeSet.size_ofList_le
  have hcount := h.count
  have hunreadable := h.unreadable
  rw [List.length_append, List.length_append] at hpaths
  unfold ChangeSet.size
  omega

theorem Started.all {changes : ChangeSet} {reindex : List String} (h : Started changes s reindex t)
    (hread : t.unreadable ≤ s.unreadable) (hnodup : changes.mentioned.Nodup) :
    t.progress.current.filesDone +
        (sortedPaths (changes.added ++ changes.modified ++ reindex)).length = changes.size := by
  have htargets : (changes.renamed.map (·.2)).Sublist
      (changes.renamed.flatMap fun ends => [ends.1, ends.2]) := by
    induction changes.renamed with
    | nil => exact List.Sublist.refl _
    | cons ends rest ih => exact (ih.cons_cons _).cons _
  have hdistinct : (changes.added ++ changes.modified ++ reindex).Nodup := by
    refine List.Nodup.sublist ?_ hnodup
    unfold ChangeSet.mentioned
    exact (List.sublist_append_left _ _).append (h.targets.trans htargets)
  have hpaths := length_eq_of_mem (sortedPaths_nodup _) hdistinct fun p => mem_sortedPaths _ p
  have hcount := h.count
  have hunreadable := h.unreadable
  rw [hpaths, List.length_append, List.length_append]
  unfold ChangeSet.size
  omega

end RunState

namespace RunSetting

open RunState

end RunSetting

namespace RunState

section Paired

end Paired

section Kept

end Kept

end RunState

end CodeIndex
