import CodeIndex.Proofs.Run.Handing
import CodeIndex.Proofs.Run.Records
import CodeIndex.Proofs.Run.Touching
import Mathlib.Data.List.Flatten

/-!
The loop that goes through the files of a run, as a trace: a file is taken, or the batch at hand is
written. What is true of the trace holds however the loop ends, whatever happens meanwhile: every
file that is ready stands in one batch, in the order of the paths, and every file is settled once.
-/

namespace CodeIndex

/-- The files that a run has settled: processed, failed or skipped. -/
def IndexResult.settled (r : IndexResult) : Nat := r.filesProcessed + r.filesFailed + r.filesSkipped

def IndexResult.stats (r : IndexResult) : WriteStats :=
  ⟨r.entitiesAdded, r.entitiesRemoved, r.entitiesRenamed, r.entitiesUnchanged⟩

namespace WriteStats

theorem merge_assoc (a b c : WriteStats) : (a.merge b).merge c = a.merge (b.merge c) := by
  simp only [merge, Nat.add_assoc]

end WriteStats

namespace RunState

variable {σ : Type}

/-- The update of a file, with what it came to. -/
structure Update where
  file : PreparedFile
  stats : WriteStats

def Update.total (updates : List Update) : WriteStats :=
  updates.foldl (fun stats update => stats.merge update.stats) {}

theorem Update.total_concat (updates : List Update) (update : Update) :
    total (updates ++ [update]) = (total updates).merge update.stats := List.foldl_concat ..

theorem Update.total_append (xs ys : List Update) :
    total (xs ++ ys) = (total xs).merge (total ys) := by
  induction ys using List.reverseRecOn with
  | nil => rw [List.append_nil]; rfl
  | append_singleton ys y ih =>
    rw [← List.append_assoc, total_concat, ih, total_concat, WriteStats.merge_assoc]

theorem stats_addStats (s : RunState σ) (stats : WriteStats) :
    (s.addStats stats).result.stats = s.result.stats.merge stats := rfl

/-- Files that are handed over to be written, with the state of the run then. -/
structure Batch (σ : Type) where
  files : List PreparedFile
  state : RunState σ

def freshCount (files : List PreparedFile) : Nat := (files.flatMap (·.fresh)).length

variable (setting : RunSetting σ)

def Batch.begun (b : Batch σ) : RunState σ := b.state.begunBatch (b.files.map (·.path))

/-- The files of a batch that are written. -/
def Batch.written (b : Batch σ) : List PreparedFile :=
  match ((embedAll setting (textsOf b.files)).run b.begun).1 with
  | .ok _ => b.files
  | .error e => b.files.filter (isWritten (some e))

theorem Batch.written_sublist (b : Batch σ) : (b.written setting).Sublist b.files := by
  unfold Batch.written
  split
  · exact List.Sublist.refl _
  · exact List.filter_sublist

structure Roomy (files : List PreparedFile) (size : Nat) : Prop where
  few : files.length ≤ max 1 setting.config.filesPerBatch
  fewBefore : freshCount files.dropLast < size

/-- A batch is full when it has files, and enough of them or enough new entities. -/
theorem isFull_eq_false (s : RunState σ) (pending : List PreparedFile) :
    isFull setting s pending = false ↔ pending = [] ∨
      freshCount pending < s.optimizer.currentSize ∧
        pending.length < max 1 setting.config.filesPerBatch := by
  -- the loop counts the new entities as a sum of lengths
  have hcount : pending.foldl (fun n file => n + file.fresh.length) 0 = freshCount pending := by
    rw [freshCount, List.length_flatMap, List.sum_eq_foldl, List.foldl_map]
  unfold isFull
  rw [hcount, Nat.max_comm]
  cases pending <;> simp

theorem Roomy.add {s : RunState σ} {pending : List PreparedFile}
    (hopen : isFull setting s pending = false) (hsize : 1 ≤ s.optimizer.currentSize)
    (file : PreparedFile) : Roomy setting (pending ++ [file]) s.optimizer.currentSize := by
  rcases (isFull_eq_false setting s pending).mp hopen with rfl | ⟨hcount, hfew⟩
  · -- a single file fits, however many entities it has
    constructor
    · exact Nat.le_max_left _ _
    · exact hsize
  · constructor
    · rw [List.length_append]
      exact hfew
    · rwa [List.dropLast_concat]

section Taking

variable (s : RunState σ) (pending : List PreparedFile) (next : Prepared)

theorem takePrepared_pending : (takePrepared s pending next).2 = pending ++ next.file?.toList := by
  cases next <;> simp [takePrepared, Prepared.file?]

theorem takePrepared_rest : (takePrepared s pending next).1.world = s.world ∧
    (takePrepared s pending next).1.manifest = s.manifest ∧
    (takePrepared s pending next).1.optimizer = s.optimizer := by
  cases next <;> exact ⟨rfl, rfl, rfl⟩

theorem takePrepared_stats : (takePrepared s pending next).1.result.stats = s.result.stats := by
  cases next <;> rfl

theorem takePrepared_settled :
    (takePrepared s pending next).1.result.settled + (takePrepared s pending next).2.length =
      s.result.settled + pending.length + 1 := by
  unfold IndexResult.settled
  cases next with
  | ready file =>
    rw [takePrepared_pending, List.length_append]
    exact (Nat.add_assoc _ _ _).symm
  | unreadable path =>
    simp only [takePrepared, addUnreadable]
    omega
  | failed path e =>
    simp only [takePrepared, addFailure, IndexResult.recordFailure]
    omega

end Taking

section Writing

variable (plan : RunPlan) (P : List Update → σ → Manifest → Prop)

/-- A batch of which some files are written, so that `P` holds of them, and `rest` is left with the
vectors for its texts. -/
structure Underway (b : Batch σ) (failure : Option IndexError) (written : Written)
    (vectors : List Embedding) (rest : List PreparedFile) (t : RunState σ) : Prop where
  updates : ∃ updates : List Update, updates.map (·.file.path) = written.done ∧
    Update.total updates = written.stats ∧
    updates.map (·.file) ++ rest.filter (isWritten failure) = b.written setting ∧
    P updates t.world.store t.manifest
  left : ∀ file ∈ rest, file ∈ b.files
  enough : failure = none → (textsOf rest).length ≤ vectors.length
  settled : t.result.settled + written.done.length + rest.length =
    b.state.result.settled + b.files.length
  stats : t.result.stats = b.state.result.stats
  leads : b.state.optimizer.LeadsTo t.optimizer

variable {P} (b : Batch σ)

theorem embedAll_underway (hreached : b.state.optimizer.Reached setting.env.maxBatch)
    (hbegin : P [] b.state.world.store b.state.manifest) :
    Runs (embedAll setting (textsOf b.files)) b.begun
      (fun vectors t => Underway setting P b none {} vectors b.files t)
      fun e t => Underway setting P b (some e) {} [] b.files t := by
  apply runs_imp _ _ _ (runs_and _ _ _ (runs_self _) (runs_and _ _ _
    (embedAll_asks (textsOf b.files) b.begun hreached)
    (embedAll_store setting (textsOf b.files) b.begun)))
  · -- every file is to be written, and has its vectors
    rintro vectors t ⟨hran, ⟨new, _, _, hanswered⟩, ⟨w, calls, optimizer, rfl⟩, hleads, hstore⟩
    have hwritten : b.files.filter (isWritten none) = b.written setting := by
      unfold Batch.written
      rw [hran]
      exact List.filter_eq_self.mpr fun _ _ => rfl
    refine ⟨⟨[], rfl, rfl, hwritten, ?_⟩, fun _ h => h, fun _ => ?_, rfl, rfl, hleads⟩
    · rw [show w.store = b.state.world.store from hstore]
      exact hbegin
    · exact hanswered.vouches.length_eq.le
  · -- only files without new entities are to be written, and these need no vectors
    rintro e t ⟨hran, _, ⟨w, calls, optimizer, rfl⟩, hleads, hstore⟩
    have hwritten : b.files.filter (isWritten (some e)) = b.written setting := by
      unfold Batch.written
      rw [hran]
    refine ⟨⟨[], rfl, rfl, hwritten, ?_⟩, fun _ h => h, fun h => (by cases h), rfl, rfl, hleads⟩
    rw [show w.store = b.state.world.store from hstore]
    exact hbegin

variable {b} {failure : Option IndexError} {written : Written} {vectors : List Embedding}
  {file : PreparedFile} {rest : List PreparedFile} {t : RunState σ}

theorem Underway.skip {e : IndexError} (hfresh : file.fresh ≠ [])
    (h : Underway setting P b (some e) written vectors (file :: rest) t) :
    Underway setting P b (some e) written vectors rest (t.addFailure file.path e) := by
  obtain ⟨⟨updates, hdone, htotal, hwritten, hP⟩, hleft, _, hsettled, hstats, hleads⟩ := h
  rw [filter_isWritten_skips hfresh] at hwritten
  refine ⟨⟨updates, hdone, htotal, hwritten, hP⟩, fun f hf => hleft f (List.mem_cons_of_mem _ hf),
    fun h => (by cases h), ?_, hstats, hleads⟩
  rw [← hsettled]
  simp only [addFailure, IndexResult.recordFailure, IndexResult.settled, List.length_cons]
  omega

theorem writeFile_underway (hcase : failure = none ∨ file.fresh = [])
    (h : Underway setting P b failure written vectors (file :: rest) t)
    (hwrite : ∀ updates, file.fresh.length ≤ vectors.length →
      P updates t.world.store t.manifest →
      Runs ((World.reach setting.env setting.store).updateFile file.path file.previousIds
          file.currentIds (withVectors file.fresh vectors) file.hasRecord) t.world
        (fun stats w => P (updates ++ [⟨file, stats⟩]) w.store
          (t.manifest.recordIndexed (recordOf plan file) w.unixTime))
        fun _ _ => True) :
    Runs (writeFile setting plan file vectors) t
      (fun stats u => Underway setting P b failure (written.add file stats)
        (vectors.drop file.fresh.length) rest u)
      fun _ _ => True := by
  obtain ⟨⟨updates, hdone, htotal, hwritten, hP⟩, hleft, henough, hsettled, hstats, hleads⟩ := h
  have hcount (hnone : failure = none) :
      file.fresh.length + (textsOf rest).length ≤ vectors.length := by
    simpa [textsOf] using henough hnone
  have hvectors : file.fresh.length ≤ vectors.length := by
    rcases hcase with hnone | hfresh
    · exact Nat.le_trans (Nat.le_add_right _ _) (hcount hnone)
    · rw [hfresh]
      exact Nat.zero_le _
  rw [runs_writeFile]
  apply runs_imp _ _ _ (hwrite updates hvectors hP) ?_ fun _ _ _ => trivial
  intro stats w hw
  -- the file goes from those that are left to those that are written, and is counted with them
  refine ⟨⟨updates ++ [⟨file, stats⟩], ?_, ?_, ?_, hw⟩,
    fun f hf => hleft f (List.mem_cons_of_mem _ hf), fun hnone => ?_, ?_, hstats, hleads⟩
  · rw [List.map_append, hdone]
    rfl
  · rw [Update.total_concat, htotal]
    rfl
  · rw [List.map_append, List.append_assoc, ← hwritten, filter_isWritten_goes hcase]
    rfl
  · have hall := hcount hnone
    rw [List.length_drop]
    omega
  · rw [← hsettled, Written.add, List.length_append, List.length_singleton, List.length_cons]
    dsimp only
    omega

/-- The batch is committed once no file is left, and its counts are added up. -/
theorem commitBatch_underway (h : Underway setting P b failure written vectors [] t) :
    Runs (commitBatch setting written.done) (t.processed written.done.length)
      (fun _ u => b.state.optimizer.LeadsTo u.optimizer ∧
        u.result.settled = b.state.result.settled + b.files.length ∧
        ∃ updates : List Update, updates.map (·.file) = b.written setting ∧
          (u.addStats written.stats).result.stats =
            b.state.result.stats.merge (Update.total updates) ∧
          P updates u.world.store u.manifest)
      fun _ _ => True := by
  obtain ⟨⟨updates, hdone, htotal, hwritten, hP⟩, _, _, hsettled, hstats, hleads⟩ := h
  rw [List.filter_nil, List.append_nil] at hwritten
  apply runs_imp _ _ _ (commitBatch_touches setting written.done
    (t.processed written.done.length)) ?_ fun _ _ _ => trivial
  rintro _ u ⟨_, hstore, hmanifest, hoptimizer, hresult⟩
  have hcounted : u.result.settled = t.result.settled + written.done.length := by
    rw [hresult]
    simp only [processed, IndexResult.settled]
    omega
  have hkept : u.result.stats = t.result.stats := by
    rw [hresult]
    rfl
  refine ⟨?_, hcounted.trans hsettled, updates, hwritten, ?_, ?_⟩
  · rw [hoptimizer]
    exact hleads
  · rw [stats_addStats, hkept, hstats, htotal]
  · rw [hstore, hmanifest]
    exact hP

/-- What every update of a file carries on holds of the updates of the files of a batch that are
written, once the batch is, and their counts are added to those of the run. Each file of the batch
is settled. -/
theorem writeBatch_updated (files : List PreparedFile) (s : RunState σ)
    (hreached : s.optimizer.Reached setting.env.maxBatch) (hbegin : P [] s.world.store s.manifest)
    (hwrite : ∀ updates file vectors w m, file ∈ files → file.fresh.length ≤ vectors.length →
      P updates w.store m →
      Runs ((World.reach setting.env setting.store).updateFile file.path file.previousIds
          file.currentIds (withVectors file.fresh vectors) file.hasRecord) w
        (fun stats w' => P (updates ++ [⟨file, stats⟩]) w'.store
          (m.recordIndexed (recordOf plan file) w'.unixTime))
        fun _ _ => True) :
    Runs (writeBatch setting plan files) s
      (fun _ t => s.optimizer.LeadsTo t.optimizer ∧
        t.result.settled = s.result.settled + files.length ∧
        ∃ updates : List Update, updates.map (·.file) = Batch.written setting ⟨files, s⟩ ∧
          t.result.stats = s.result.stats.merge (Update.total updates) ∧
          P updates t.world.store t.manifest)
      fun _ _ => True := by
  apply writeBatch_counts setting plan files (Underway setting P ⟨files, s⟩)
  · exact embedAll_underway setting ⟨files, s⟩ hreached hbegin
  · rintro _ written vectors file rest t e rfl hfresh h
    exact h.skip setting hfresh
  · intro failure written vectors file rest t hcase h
    exact writeFile_underway setting plan hcase h fun updates hvectors =>
      hwrite updates file vectors t.world t.manifest (h.left file List.mem_cons_self) hvectors
  · exact fun _ _ _ _ h => commitBatch_underway setting h

/-- The same, where it does not matter what the updates come to in numbers. -/
theorem writeBatch_written {P : List PreparedFile → σ → Manifest → Prop}
    (files : List PreparedFile) (s : RunState σ)
    (hreached : s.optimizer.Reached setting.env.maxBatch) (hbegin : P [] s.world.store s.manifest)
    (hwrite : ∀ written file vectors w m, file ∈ files → file.fresh.length ≤ vectors.length →
      P written w.store m →
      Runs ((World.reach setting.env setting.store).updateFile file.path file.previousIds
          file.currentIds (withVectors file.fresh vectors) file.hasRecord) w
        (fun _ w' => P (written ++ [file]) w'.store
          (m.recordIndexed (recordOf plan file) w'.unixTime))
        fun _ _ => True) :
    Runs (writeBatch setting plan files) s
      (fun _ t => s.optimizer.LeadsTo t.optimizer ∧
        t.result.settled = s.result.settled + files.length ∧
        P (Batch.written setting ⟨files, s⟩) t.world.store t.manifest)
      fun _ _ => True := by
  apply runs_imp _ _ _ (writeBatch_updated setting plan
    (P := fun updates st m => P (updates.map (·.file)) st m) files s hreached hbegin ?_) ?_
    fun _ _ h => h
  · intro updates file vectors w m hfile hvectors hbefore
    simp only [List.map_append, List.map_singleton]
    exact hwrite _ file vectors w m hfile hvectors hbefore
  · rintro _ t ⟨hleads, hsettled, updates, hupdates, _, hP⟩
    exact ⟨hleads, hsettled, hupdates ▸ hP⟩

/-- A batch leaves the records of all other files as they are, and settles its own files. -/
theorem writeBatch_records (files : List PreparedFile) (s : RunState σ)
    (hreached : s.optimizer.Reached setting.env.maxBatch) :
    Runs (writeBatch setting plan files) s
      (fun _ t => s.optimizer.LeadsTo t.optimizer ∧
        t.result.settled = s.result.settled + files.length ∧
        ∀ p, (∀ file ∈ Batch.written setting ⟨files, s⟩, file.path ≠ p) →
          t.manifest.get? p = s.manifest.get? p)
      fun _ _ => True := by
  refine writeBatch_written setting plan (P := fun written _ m => ∀ p,
    (∀ file ∈ written, file.path ≠ p) → m.get? p = s.manifest.get? p) files s hreached ?_ ?_
  · exact fun _ _ => rfl
  · intro written file vectors w m _ _ hm
    refine runs_imp _ _ _ (runs_self _) (fun _ w' _ p hp => ?_) fun _ _ _ => trivial
    have hother : (recordOf plan file).path ≠ p :=
      hp file (List.mem_append_right _ List.mem_cons_self)
    have hbefore := hm p fun f hf => hp f (List.mem_append_left _ hf)
    rw [Manifest.get?_recordIndexed, if_neg hother, hbefore]

end Writing

section Trace

variable (plan : RunPlan)

/-- What the loop has done from a state on: the outcomes it has taken, the batches it has written,
the batch at hand, and the state now. -/
inductive Batched (s₀ : RunState σ) :
    List Prepared → List (Batch σ) → List PreparedFile → RunState σ → Prop
  | begin : Batched s₀ [] [] [] s₀
  | take {outcomes : List Prepared} {batches : List (Batch σ)} {pending : List PreparedFile}
      {s : RunState σ} (next : Prepared) (h : Batched s₀ outcomes batches pending s)
      (hopen : isFull setting s pending = false) :
    Batched s₀ (outcomes ++ [next]) batches (takePrepared s pending next).2
      (takePrepared s pending next).1
  | write {outcomes : List Prepared} {batches : List (Batch σ)} {pending : List PreparedFile}
      {s t : RunState σ} (h : Batched s₀ outcomes batches pending s) (hsome : pending ≠ [])
      (hran : (writeBatch setting plan pending).run s = (.ok (), t)) :
    Batched s₀ outcomes (batches ++ [⟨pending, s⟩]) [] t

variable {setting plan} {s₀ t : RunState σ} {outcomes : List Prepared} {batches : List (Batch σ)}
  {pending : List PreparedFile}

namespace Batched

theorem reached (h : Batched setting plan s₀ outcomes batches pending t)
    (hreached : s₀.optimizer.Reached setting.env.maxBatch) :
    t.optimizer.Reached setting.env.maxBatch := by
  induction h with
  | begin => exact hreached
  | @take _ _ pending s next _ _ ih => rwa [(takePrepared_rest s pending next).2.2]
  | @write _ _ pending s t _ _ hran ih =>
    exact (runs_ok _ _ _ (writeBatch_records setting plan pending s ih) hran).1.reached ih

/-- The files that are ready are in the batches or at hand, each once and in order. -/
theorem files (h : Batched setting plan s₀ outcomes batches pending t) :
    batches.flatMap (·.files) ++ pending = outcomes.filterMap Prepared.file? := by
  induction h with
  | begin => rfl
  | @take _ _ pending s next _ _ ih =>
    rw [takePrepared_pending, ← List.append_assoc, ih, List.filterMap_append]
    cases hfile : next.file? <;> simp [hfile]
  | write _ _ _ ih =>
    rw [← ih, List.flatMap_append, List.append_nil]
    simp

theorem pending_ready (h : Batched setting plan s₀ outcomes batches pending t) :
    pending ⊆ outcomes.filterMap Prepared.file? := by
  rw [← h.files]
  exact List.subset_append_right _ _

theorem files_ready (h : Batched setting plan s₀ outcomes batches pending t) {b : Batch σ}
    (hb : b ∈ batches) : b.files ⊆ outcomes.filterMap Prepared.file? := by
  intro file hfile
  rw [← h.files]
  exact List.mem_append_left _ (List.mem_flatMap.mpr ⟨b, hb, hfile⟩)

/-- No batch is empty, and every batch fits into the size at hand when it is written. -/
theorem sizes (h : Batched setting plan s₀ outcomes batches pending t)
    (hreached : s₀.optimizer.Reached setting.env.maxBatch) :
    (∀ b ∈ batches, b.files ≠ [] ∧ Roomy setting b.files b.state.optimizer.currentSize) ∧
      Roomy setting pending t.optimizer.currentSize := by
  have hempty (u : RunState σ) (hu : u.optimizer.Reached setting.env.maxBatch) :
      Roomy setting [] u.optimizer.currentSize := by
    have hpositive := hu.bounded.positive
    have hleast := hu.bounded.least
    exact ⟨Nat.zero_le _, Nat.lt_of_lt_of_le hpositive hleast⟩
  -- the batch at hand is part of the invariant, as it is written the way it stands
  induction h with
  | begin => exact ⟨fun _ h => absurd h List.not_mem_nil, hempty _ hreached⟩
  | @take _ _ pending s next h hopen ih =>
    refine ⟨ih.1, ?_⟩
    rw [takePrepared_pending, (takePrepared_rest s pending next).2.2]
    cases next.file? with
    | none => simpa using ih.2
    | some file =>
      have hbounded := (h.reached hreached).bounded
      exact Roomy.add setting hopen (Nat.le_trans hbounded.positive hbounded.least) file
  | @write _ batches pending s t h hsome hran ih =>
    refine ⟨fun b hb => ?_, hempty _ ((h.write hsome hran).reached hreached)⟩
    rcases List.mem_append.mp hb with hb | hb
    · exact ih.1 b hb
    · rw [List.mem_singleton.mp hb]
      exact ⟨hsome, ih.2⟩

/-- Every outcome that is taken is settled, but for the files at hand. -/
theorem settled (h : Batched setting plan s₀ outcomes batches pending t)
    (hreached : s₀.optimizer.Reached setting.env.maxBatch) :
    t.result.settled + pending.length = s₀.result.settled + outcomes.length := by
  -- by the trace: a file that is taken counts on both sides, a batch only moves its files over
  induction h with
  | begin => rfl
  | @take _ _ pending s next _ _ ih =>
    rw [takePrepared_settled, ih, List.length_append]
    rfl
  | @write _ _ pending s t h _ hran ih =>
    have hsettled :=
      (runs_ok _ _ _ (writeBatch_records setting plan pending s (h.reached hreached)) hran).2.1
    rw [hsettled]
    exact ih

/-- The record of a file that no batch has written is as it was. -/
theorem records (h : Batched setting plan s₀ outcomes batches pending t)
    (hreached : s₀.optimizer.Reached setting.env.maxBatch) (p : String)
    (hp : ∀ b ∈ batches, ∀ file ∈ b.written setting, file.path ≠ p) :
    t.manifest.get? p = s₀.manifest.get? p := by
  induction h with
  | begin => rfl
  | @take _ _ pending s next _ _ ih => rw [(takePrepared_rest s pending next).2.1, ih hp]
  | @write _ batches pending s t h _ hran ih =>
    have hlast : ∀ file ∈ Batch.written setting ⟨pending, s⟩, file.path ≠ p :=
      hp _ (List.mem_append_right _ List.mem_cons_self)
    have hkept :=
      (runs_ok _ _ _ (writeBatch_records setting plan pending s (h.reached hreached)) hran).2.2
    rw [hkept p hlast, ih fun b hb => hp b (List.mem_append_left _ hb)]

/-- What every update of a file carries on holds of the updates of the files that are written, and
their counts are added to those of the run. -/
theorem updated {P : List Update → σ → Manifest → Prop}
    (h : Batched setting plan s₀ outcomes batches pending t)
    (hreached : s₀.optimizer.Reached setting.env.maxBatch)
    (hbegin : P [] s₀.world.store s₀.manifest)
    (hwrite : ∀ updates file vectors w m, file ∈ outcomes.filterMap Prepared.file? →
      file.fresh.length ≤ vectors.length → P updates w.store m →
      Runs ((World.reach setting.env setting.store).updateFile file.path file.previousIds
          file.currentIds (withVectors file.fresh vectors) file.hasRecord) w
        (fun stats w' => P (updates ++ [⟨file, stats⟩]) w'.store
          (m.recordIndexed (recordOf plan file) w'.unixTime))
        fun _ _ => True) :
    ∃ updates : List Update, updates.map (·.file) = batches.flatMap (·.written setting) ∧
      t.result.stats = s₀.result.stats.merge (Update.total updates) ∧
      P updates t.world.store t.manifest := by
  induction h with
  | begin => exact ⟨[], rfl, rfl, hbegin⟩
  | @take outcomes _ pending s next _ _ ih =>
    obtain ⟨updates, hupdates, hstats, hP⟩ := ih fun updates file vectors w m hfile =>
      hwrite updates file vectors w m (by
        rw [List.filterMap_append]
        exact List.mem_append_left _ hfile)
    refine ⟨updates, hupdates, (takePrepared_stats s pending next).trans hstats, ?_⟩
    rw [(takePrepared_rest s pending next).1, (takePrepared_rest s pending next).2.1]
    exact hP
  | @write outcomes batches pending s t h _ hran ih =>
    obtain ⟨before, hbefore, hstats, hP⟩ := ih hwrite
    -- the batch starts with the updates before it, and the files at hand were taken before
    have hbatch := writeBatch_updated setting plan
      (P := fun updates st m => P (before ++ updates) st m) pending s (h.reached hreached)
      (by rwa [List.append_nil]) fun updates file vectors w m hfile hvectors hbefore => by
        simp only [← List.append_assoc]
        exact hwrite _ file vectors w m (h.pending_ready hfile) hvectors hbefore
    obtain ⟨_, _, updates, hupdates, hcounted, hP'⟩ := runs_ok _ _ _ hbatch hran
    refine ⟨before ++ updates, ?_, ?_, hP'⟩
    · rw [List.map_append, hbefore, hupdates, List.flatMap_append, List.flatMap_singleton]
    · rw [hcounted, hstats, Update.total_append, WriteStats.merge_assoc]

end Batched

variable (setting plan) in
def Came (m : Manifest) (paths : List String) (outcomes : List Prepared) : Prop :=
  List.Forall₂ (fun path outcome => ∃ d, prepare setting plan.force d (.ofPath m path) = outcome)
    paths outcomes

theorem Came.ready {m : Manifest} {paths : List String} (h : Came setting plan m paths outcomes)
    {file : PreparedFile} (hfile : file ∈ outcomes.filterMap Prepared.file?) :
    ∃ d path, prepare setting plan.force d (.ofPath m path) = .ready file := by
  induction h with
  | nil => exact absurd hfile List.not_mem_nil
  | @cons path outcome _ outcomes hone _ ih =>
    obtain ⟨next, hnext, hready⟩ := List.mem_filterMap.mp hfile
    rcases List.mem_cons.mp hnext with rfl | hnext
    · obtain ⟨d, hprepared⟩ := hone
      cases next with
      | ready ready =>
        cases hready
        exact ⟨d, path, hprepared⟩
      | unreadable _ => cases hready
      | failed _ _ => cases hready
    · exact ih (List.mem_filterMap.mpr ⟨next, hnext, hready⟩)

/-- The files that are ready are those of some of the paths, in their order. -/
theorem Came.paths {m : Manifest} {paths : List String} (h : Came setting plan m paths outcomes) :
    ((outcomes.filterMap Prepared.file?).map (·.path)).Sublist paths := by
  induction h with
  | nil => exact List.Sublist.refl []
  | @cons path outcome paths outcomes hone _ ih =>
    obtain ⟨d, hprepared⟩ := hone
    have hpath : outcome.path = path := by
      rw [← hprepared, prepare_path, WorkItem.ofPath_path]
    cases outcome with
    | ready file =>
      rw [← hpath]
      exact ih.cons_cons _
    | unreadable _ => exact ih.cons _
    | failed _ _ => exact ih.cons _

/-- The outcomes that are taken came of the paths at the front. -/
theorem Came.taken {m : Manifest} {front rest : List String} {ahead : List Prepared}
    (h : Came setting plan m front (outcomes ++ ahead)) :
    Came setting plan m ((front ++ rest).take outcomes.length) outcomes := by
  have hlength := List.Forall₂.length_eq h
  rw [List.length_append] at hlength
  rw [List.take_append_of_le_length (by omega)]
  exact List.forall₂_take_append front outcomes ahead h

variable (setting plan) in
/-- The loop on its way: the paths at the front are taken or read ahead, and the others are still to
be read. -/
def Going (paths : List String) (s : RunState σ) (pending : List PreparedFile)
    (ahead : List Prepared) (items : List WorkItem) (t : RunState σ) : Prop :=
  ∃ front rest outcomes batches, paths = front ++ rest ∧
    items = rest.map (WorkItem.ofPath s.manifest) ∧
    Came setting plan s.manifest front (outcomes ++ ahead) ∧
    Batched setting plan s outcomes batches pending t

/-- The loop is a trace of the outcomes of its paths, in their order. It finishes when no path is
left and no file is at hand, is cancelled between two batches, or fails in a batch. -/
theorem drain_batched (paths : List String) (s : RunState σ) :
    Runs (drain setting plan paths.length { items := paths.map (WorkItem.ofPath s.manifest) }) s
      (fun ending t => ∃ outcomes batches pending,
        Came setting plan s.manifest (paths.take outcomes.length) outcomes ∧
          Batched setting plan s outcomes batches pending t ∧
          (ending = .finished → outcomes.length = paths.length ∧ pending = []) ∧
          (ending = .cancelled → t.world.isCancelled = true))
      fun e t => ∃ outcomes batches pending u,
        Came setting plan s.manifest (paths.take outcomes.length) outcomes ∧
          Batched setting plan s outcomes batches pending u ∧ pending ≠ [] ∧
          (writeBatch setting plan pending).run u = (.error e, t) := by
  have hempty (u : RunState σ) : isFull setting u [] = false :=
    (isFull_eq_false setting u []).mpr (.inl rfl)
  -- the batch at hand is not full when a file is read or taken, and may be when one has been taken
  apply runs_imp _ _ _ (drain_loop setting plan
    (fun pending ahead items t => Going setting plan paths s pending ahead items t ∧
      isFull setting t pending = false) (Going setting plan paths s)
    _ (fun t => ∃ outcomes batches pending,
      Came setting plan s.manifest (paths.take outcomes.length) outcomes ∧
        Batched setting plan s outcomes batches pending t ∧ t.world.isCancelled = true)
    ?_ ?_ (fun _ _ _ _ h hopen => ⟨h, hopen⟩) ?_ ?_ _ _ s ?_ ?_)
  · rintro ending t ⟨hfinished, hcancelled⟩
    cases ending with
    | finished =>
      obtain ⟨⟨front, rest, outcomes, batches, rfl, hitems, hcame, ht⟩, _⟩ := hfinished rfl
      have hlength : front.length = outcomes.length := by
        simpa using List.Forall₂.length_eq hcame
      have hrest : rest = [] := List.map_eq_nil_iff.mp hitems.symm
      refine ⟨outcomes, batches, [], hcame.taken, ht, fun _ => ⟨?_, rfl⟩, fun h => by cases h⟩
      rw [hrest, List.append_nil, hlength]
    | cancelled =>
      obtain ⟨outcomes, batches, pending, hcame, ht, hc⟩ := hcancelled rfl
      exact ⟨outcomes, batches, pending, hcame, ht, fun h => (by cases h), fun _ => hc⟩
  · exact fun _ _ h => h
  · -- a file is read
    rintro pending ahead item items t ⟨⟨front, rest, outcomes, batches, rfl, hitems, hcame, ht⟩,
      hopen⟩
    cases rest with
    | nil => cases hitems
    | cons path rest =>
      obtain ⟨rfl, rfl⟩ := List.cons.inj hitems
      refine ⟨⟨front ++ [path], rest, outcomes, batches, ?_, rfl, ?_, ht⟩, hopen⟩
      · rw [List.append_assoc]
        rfl
      · rw [← List.append_assoc]
        exact List.rel_append hcame (.cons ⟨_, rfl⟩ .nil)
  · -- a file is taken
    rintro pending next ahead items t ⟨⟨front, rest, outcomes, batches, hpaths, hitems, hcame, ht⟩,
      hopen⟩
    refine ⟨front, rest, outcomes ++ [next], batches, hpaths, hitems, ?_, ht.take next hopen⟩
    rw [List.append_assoc]
    exact hcame
  · -- a batch is written
    intro pending ahead items t hsome h _
    obtain ⟨front, rest, outcomes, batches, rfl, hitems, hcame, ht⟩ := h.elim id fun h => h.1
    apply runs_imp _ _ _ (runs_self (writeBatch setting plan pending))
    · exact fun _ u hran => ⟨⟨front, rest, outcomes, _, rfl, hitems, hcame, ht.write hsome hran⟩,
        hempty u⟩
    · exact fun e u hran => ⟨outcomes, batches, pending, t, hcame.taken, ht, hsome, hran⟩
  · -- the run is cancelled
    intro pending ahead items t h hc
    obtain ⟨front, rest, outcomes, batches, rfl, hitems, hcame, ht⟩ := h.elim id fun h => h.1
    exact ⟨outcomes, batches, pending, hcame.taken, ht, hc⟩
  · simp
  · exact ⟨⟨[], paths, [], [], rfl, rfl, .nil, .begin⟩, hempty s⟩

end Trace

end RunState

end CodeIndex
