import CodeIndex.Proofs.Change.Detect
import CodeIndex.Proofs.Disk.Linkless
import CodeIndex.Proofs.Run.Loading
import CodeIndex.Proofs.Run.Records
import CodeIndex.Proofs.Run.Touching
import CodeIndex.Run.Pipeline
import CodeIndex.Store.Memory

/-!
Runs from beginning to end. A run that gets past its beginning ends with a result: it is aborted
and the index reflects the commit that it did before, or it is finished, its files are saved, and
without a failure the records are those of the tree.
-/

namespace CodeIndex

open StateDir

namespace FileFilter

/-- The files that may be indexed are apart from those that runs write. -/
def Apart (f : FileFilter) (home : Location) (d : Disk) : Prop :=
  ∀ p, f.isEligible p = true → ∀ d', Same home d d' →
    d'.stat (Path.join f.root p) = d.stat (Path.join f.root p)

theorem ofConfig_root (root : String) (config : ScanConfig) (f : FileFilter)
    (h : ofConfig root config = .ok f) : f.root = root := by
  unfold ofConfig at h
  cases hrules : config.exclude.mapM excludeRule with
  | error e =>
    rw [hrules] at h
    cases h
  | ok rules =>
    rw [hrules] at h
    cases h
    rfl

variable {f : FileFilter} {home : Location} {d d' : Disk}

/-- A file that is there to be indexed is eligible, small enough and no binary. -/
theorem inspect_present (p : String) (hash : ContentHash) :
    f.inspect d p = .present hash ↔ f.isEligible p = true ∧ ∃ content modified,
      d.stat (Path.join f.root p) = .ok (.file content modified) ∧
      f.withinSize content.size = true ∧ Digest.isBinary content = false ∧
      Digest.contentHash content = hash := by
  unfold inspect
  constructor
  · intro h
    split at h
    · rename_i heligible
      split at h
      · cases h
      · cases h
      · rename_i content modified hstat
        split at h
        · cases h
        · rename_i hsize
          split at h
          · cases h
          · rename_i hbinary
            injection h with h
            exact ⟨heligible, content, modified, hstat, by simpa using hsize, by simpa using hbinary,
              h⟩
      · cases h
    · cases h
  · rintro ⟨heligible, content, modified, hstat, hsize, hbinary, hhash⟩
    rw [if_pos heligible, hstat]
    simp [hsize, hbinary, hhash]

theorem Apart.inspect (h : f.Apart home d) (hsame : Same home d d') (p : String) :
    f.inspect d' p = f.inspect d p := by
  unfold FileFilter.inspect
  split
  · rename_i heligible
    rw [h p heligible d' hsame]
  · rfl

/-- Where there are no links, the files that may be indexed are apart from the state directory. -/
theorem apart_of_linkless (hlinks : d.Linkless) (hhome : f.config.stateDir ∈ home)
    (hroot : f.config.stateDir ∉ Path.pieces f.root) (hdot : f.config.stateDir ≠ ".")
    (hup : f.config.stateDir ≠ "..") : f.Apart home d := by
  intro p hp d' hsame
  apply Disk.stat_avoiding f.config.stateDir hsame hlinks
  · intro y hy
    obtain ⟨name, _, rfl⟩ := List.mem_map.mp hy
    exact List.mem_append_left _ hhome
  · exact f.eligible_avoids p hp hroot hdot hup

theorem Apart.of_same (h : f.Apart home d) (hsame : Same home d d') : f.Apart home d' := by
  intro p hp d'' hsame'
  rw [h p hp d'' (hsame.trans hsame'), h p hp d' hsame]

theorem Apart.seen (h : f.Apart home d) : Seen f.root home d (f.inspect d) := by
  intro p hash hlook
  obtain ⟨heligible, content, modified, hstat, _, _, hhash⟩ := (inspect_present p hash).mp hlook
  refine ⟨content, modified, hhash, fun d' hsame => ?_⟩
  unfold Disk.readFile
  rw [h p heligible d' hsame, hstat]
  rfl

end FileFilter

namespace RunState

variable {σ : Type} (setting : RunSetting σ) {home : Location}

theorem saveCheckpoint_saved (hstill : setting.env.Still) (s : RunState σ)
    (hready : Ready setting.stateDir home s.world.disk) :
    Runs (saveCheckpoint setting) s
      (fun _ t => ∃ w, World.Saved home Checkpoint.fileName s.checkpoint.fileText s.world w ∧
        t = { s with world := w }) (fun _ _ => False) := by
  rw [runs_saveCheckpoint]
  exact runs_imp _ _ _ (World.save_saved _ hstill _ _ s.world hready (by decide))
    (fun _ w hw => ⟨w, hw, rfl⟩) (fun _ _ h => h)

theorem saveManifest_saved (hstill : setting.env.Still) (s : RunState σ)
    (hready : Ready setting.stateDir home s.world.disk) :
    Runs (saveManifest setting) s
      (fun _ t => ∃ w, World.Saved home Manifest.fileName s.manifest.fileText s.world w ∧
        t = { s with world := w }) (fun _ _ => False) := by
  rw [runs_saveManifest]
  exact runs_imp _ _ _ (World.save_saved _ hstill _ _ s.world hready (by decide))
    (fun _ w hw => ⟨w, hw, rfl⟩) (fun _ _ h => h)

/-- No file failed and none was unreadable. -/
def Clean (s : RunState σ) : Prop := s.result.filesFailed = 0 ∧ s.unreadable = 0

instance (s : RunState σ) : Decidable s.Clean :=
  inferInstanceAs (Decidable (s.result.filesFailed = 0 ∧ s.unreadable = 0))

theorem clean_iff (s : RunState σ) : s.Clean ↔ s.core.missed = 0 := by
  unfold Clean
  show _ ↔ s.result.filesFailed + s.unreadable = 0
  omega

/-- The manifest once the flags of its records are settled, if they are known. -/
def settled (m : Manifest) (divergence : HeadDivergence) (now : Duration) : Manifest :=
  match divergence with
  | .paths found => m.settleDivergence found now
  | _ => m

theorem settled_flagged {m : Manifest} {divergence : HeadDivergence}
    (h : ∀ found, divergence = .paths found →
      ∀ p r, m.get? p = some r → r.diverged = found.contains r.path) (now : Duration) :
    settled m divergence now = m := by
  cases divergence with
  | noHistory | unknown => rfl
  | paths found =>
    refine if_neg fun hunsettled => ?_
    obtain ⟨r, hr, hne⟩ := List.any_eq_true.mp hunsettled
    obtain ⟨p, hp⟩ := (Manifest.mem_records _ r).mp hr
    rw [h found rfl p r hp] at hne
    simp at hne

theorem settled_hashAt (m : Manifest) (divergence : HeadDivergence) (now : Duration) (p : String) :
    (settled m divergence now).hashAt p = m.hashAt p := by
  unfold settled
  split
  · exact Manifest.hashAt_settleDivergence m _ now p
  · rfl

theorem settled_keyed (m : Manifest) (divergence : HeadDivergence) (now : Duration)
    (h : m.Keyed) : (settled m divergence now).Keyed := by
  unfold settled
  split
  · exact Manifest.keyed_settleDivergence m _ now h
  · exact h

theorem settled_storable (m : Manifest) (divergence : HeadDivergence) (now : Duration)
    (hnow : now.Storable) (h : m.Storable) : (settled m divergence now).Storable := by
  unfold settled
  split
  · exact h.settleDivergence _ _ hnow
  · exact h

/-- The end of a run that went through its batches. If it missed nothing, flags of the manifest that
are not settled yet are settled and saved; then the checkpoint is completed and saved. -/
theorem complete_rule (plan : RunPlan) (s : RunState σ) {Q : IndexResult → RunState σ → Prop}
    {E : IndexError → RunState σ → Prop} (holds : RunState σ → Prop)
    (hkeep : s.manifest =
      (if s.Clean then settled s.manifest plan.divergence s.now else s.manifest) → holds s)
    (hsettle : ∀ found, plan.divergence = .paths found → s.Clean →
      Runs (saveManifest setting) { s with manifest := s.manifest.settleDivergence found s.now }
        (fun _ t => holds t) E)
    (hlast : ∀ t, holds t → Runs (saveCheckpoint setting)
      { t with checkpoint := t.checkpoint.complete s.Clean t.world.clock }
      (fun _ u => Q u.result.finish u) E) :
    Runs (setting.complete plan) s Q E := by
  have hend (t : RunState σ) (ht : holds t) : Runs (do
      modify fun u => { u with checkpoint := u.checkpoint.complete s.Clean u.world.clock }
      saveCheckpoint setting
      return (← get).result.finish : RunM (RunState σ) IndexResult) t Q E := by
    simp only [runs_bind, runs_modify, runs_get, runs_pure]
    exact hlast t ht
  unfold RunSetting.complete
  rw [runs_bind, runs_get]
  dsimp only
  cases hdivergence : plan.divergence with
  | noHistory =>
    refine hend s (hkeep ?_)
    rw [hdivergence]
    exact (ite_self _).symm
  | unknown =>
    refine hend s (hkeep ?_)
    rw [hdivergence]
    exact (ite_self _).symm
  | paths found =>
    dsimp only
    split
    · rename_i hcond
      rw [runs_bind, runs_set, runs_bind]
      exact runs_imp _ _ _ (hsettle found hdivergence hcond.1) (fun _ t ht => hend t ht)
        fun _ _ h => h
    · rename_i hcond
      refine hend s (hkeep ?_)
      split
      · rename_i hclean
        -- the flags are right as they are
        have hsettled : ¬ s.manifest.isUnsettled found = true := fun h => hcond ⟨hclean, h⟩
        rw [hdivergence]
        show s.manifest = s.manifest.settleDivergence found s.now
        unfold Manifest.settleDivergence
        rw [if_neg hsettled]
      · rfl

structure Completed (home : Location) (plan : RunPlan) (s t : RunState σ) : Prop where
  same : Same home s.world.disk t.world.disk
  world : t.world.store = s.world.store ∧ t.world.clock = s.world.clock
  calls : t.world.requests = s.world.requests ∧ t.world.storeCalls = s.world.storeCalls
  counts : t.result = s.result ∧ t.unreadable = s.unreadable
  checkpoint : t.checkpoint = s.checkpoint.complete s.Clean s.world.clock
  checkpointText : content home t.world.disk Checkpoint.fileName =
    some t.checkpoint.fileText.toUTF8
  manifest : t.manifest = if s.Clean then settled s.manifest plan.divergence s.now else s.manifest
  stored : Stored s home t

theorem complete_completed (hstill : setting.env.Still) (plan : RunPlan) (s : RunState σ)
    (hready : Ready setting.stateDir home s.world.disk) :
    Runs (setting.complete plan) s
      (fun res t => Completed home plan s t ∧ res = s.result.finish) (fun _ _ => False) := by
  -- the checkpoint is saved last; the manifest may have been saved before
  apply complete_rule setting plan s fun t => ∃ m w, t = { s with world := w, manifest := m } ∧
    Same home s.world.disk w.disk ∧ (w.store = s.world.store ∧ w.clock = s.world.clock) ∧
    (w.requests = s.world.requests ∧ w.storeCalls = s.world.storeCalls) ∧
    m = (if s.Clean then settled s.manifest plan.divergence s.now else s.manifest) ∧
    Stored s home { s with world := w, manifest := m }
  · exact fun hm => ⟨s.manifest, s.world, rfl, hready.same_refl, ⟨rfl, rfl⟩, ⟨rfl, rfl⟩, hm,
      .inr ⟨rfl, rfl⟩⟩
  · intro found hdivergence hclean
    apply runs_imp _ _ _ (saveManifest_saved setting hstill
      { s with manifest := s.manifest.settleDivergence found s.now } hready) ?_ fun _ _ h => h
    rintro _ t ⟨w, hw, rfl⟩
    obtain ⟨disk, moments, heq⟩ := hw.rest
    refine ⟨_, w, rfl, hw.same, ?_, ?_, ?_, .inl hw.content⟩
    · rw [heq]
      exact ⟨rfl, rfl⟩
    · rw [heq]
      exact ⟨rfl, rfl⟩
    · rw [if_pos hclean, hdivergence]
      rfl
  · rintro _ ⟨m, w, rfl, hsame, hrest, hcalls, hm, hstored⟩
    apply runs_imp _ _ _ (saveCheckpoint_saved setting hstill _ (hready.of_same hsame)) ?_
      fun _ _ h => h
    rintro _ t ⟨w', hw', rfl⟩
    obtain ⟨disk, moments, heq⟩ := hw'.rest
    refine ⟨⟨hsame.trans hw'.same, ?_, ?_, ⟨rfl, rfl⟩, ?_, hw'.content, hm, ?_⟩, rfl⟩
    · rw [heq]
      exact hrest
    · rw [heq]
      exact hcalls
    · show s.checkpoint.complete _ w.clock = _
      rw [hrest.2]
    · have hkeep := hw'.others Manifest.fileName (by decide) (by decide)
      unfold Stored at *
      rw [hkeep]
      exact hstored

namespace Completed

variable {setting} {plan : RunPlan} {s t : RunState σ}

theorem clean_same (h : Completed home plan s t) : t.Clean ↔ s.Clean := by
  unfold Clean
  rw [h.counts.1, h.counts.2]

theorem hashAt_eq (h : Completed home plan s t) (p : String) :
    t.manifest.hashAt p = s.manifest.hashAt p := by
  rw [h.manifest]
  split
  · exact settled_hashAt _ _ _ _
  · rfl

theorem keyed (h : Completed home plan s t) (hs : s.manifest.Keyed) : t.manifest.Keyed := by
  rw [h.manifest]
  split
  · exact settled_keyed _ _ _ hs
  · exact hs

theorem storable (h : Completed home plan s t) (hclock : s.world.clock.Valid)
    (hs : s.manifest.Storable) : t.manifest.Storable := by
  rw [h.manifest]
  split
  · exact settled_storable _ _ _ (World.unixTime_storable s.world hclock) hs
  · exact hs

/-- A run that missed nothing has settled the flags of its records. -/
theorem flags (h : Completed home plan s t) (hclean : t.Clean) {found : Std.ExtTreeSet String}
    (hdivergence : plan.divergence = .paths found) (p : String) (r : FileRecord)
    (hr : t.manifest.get? p = some r) : r.diverged = found.contains r.path := by
  rw [h.manifest, if_pos (h.clean_same.mp hclean), hdivergence] at hr
  unfold settled at hr
  dsimp only at hr
  rw [Manifest.get?_settleDivergence] at hr
  obtain ⟨r', _, rfl⟩ := Option.map_eq_some_iff.mp hr
  rfl

/-- The manifest on the disk is the one at hand, or neither has changed since the first batch. -/
theorem stored_since {s₀ : RunState σ} (h : Completed home plan s t) (hs : Stored s₀ home s) :
    Stored s₀ home t := by
  rcases h.stored with hnow | ⟨hkept, hm⟩
  · exact .inl hnow
  · rcases hs with hbefore | ⟨hkept', hm'⟩
    · exact .inl (by rw [hkept, hbefore, hm])
    · exact .inr ⟨hkept.trans hkept', hm.trans hm'⟩

end Completed

end RunState

/-- What a run is asked for. -/
inductive RunRequest where
  | repository (mode : IndexMode)
  | changeset (changes : ChangeSet)
deriving DecidableEq, Repr, Inhabited

def RunRequest.force : RunRequest → Bool
  | .repository .full => true
  | _ => false

namespace RunReport

variable {σ : Type}

/-- The run went through all its files, and saved that it did. -/
def IsFinished (report : RunReport σ) : Prop :=
  ∃ res, report.outcome = .ok res ∧ res.status ≠ .aborted

instance (report : RunReport σ) : Decidable report.IsFinished :=
  match h : report.outcome with
  | .ok res => decidable_of_iff (res.status ≠ .aborted)
      ⟨fun hres => ⟨res, h, hres⟩, fun ⟨_, h', hres⟩ => by cases h.symm.trans h'; exact hres⟩
  | .error _ => .isFalse fun ⟨_, h', _⟩ => by cases h.symm.trans h'

/-- The commit that is noted in a result makes no difference to how the run came out. -/
theorem isFinished_noted (s : RunState σ) (outcome : Except IndexError IndexResult)
    (commit : Option String) :
    IsFinished ⟨s, outcome.map fun r => { r with lastIndexedCommit := commit }⟩ ↔
      IsFinished ⟨s, outcome⟩ := by
  cases outcome <;> simp [IsFinished, Except.map]

end RunReport

namespace RunSetting

open RunState

variable {σ : Type} (setting : RunSetting σ) (home : Location) (filter : FileFilter)

structure Idle (c : RunContext) (w : World σ) (s : RunState σ) : Prop where
  clean : s.Clean
  store : s.world.store = w.store
  calls : s.world.requests = w.requests ∧ s.world.storeCalls = w.storeCalls
  counts : s.result.batches = 0 ∧ s.result.embeddingCalls = 0
  batch : s.checkpoint.lastCompletedBatch = c.checkpoint.lastCompletedBatch
  records : ∃ d now, Same home w.disk d ∧
    s.manifest = settled c.manifest (setting.treeView filter d).headDivergence now

/-- What a run has done that worked through its changes, from the world `w` where it detected them
to the state `s` at its end. -/
structure Finished (look : String → FileState) (c : RunContext) (detection : Detection)
    (w : World σ) (s : RunState σ) : Prop where
  same : Same home w.disk s.world.disk
  clock : w.clock.Valid → s.world.clock.Valid
  last : s.checkpoint.lastIndexedCommit =
    if s.Clean then detection.head.or c.reference else c.reference
  status : s.checkpoint.status = .completed
  checkpointText : content home s.world.disk Checkpoint.fileName =
    some s.checkpoint.fileText.toUTF8
  schema : s.checkpoint.schemaVersion = c.checkpoint.schemaVersion
  started : s.checkpoint.startedAt = c.checkpoint.startedAt
  timestamp : w.clock.Valid → s.checkpoint.timestamp.Valid
  keyed : c.manifest.Keyed → s.manifest.Keyed
  storable : w.clock.Valid → c.manifest.Storable → s.manifest.Storable
  manifestText : content home s.world.disk Manifest.fileName = some s.manifest.fileText.toUTF8 ∨
    content home s.world.disk Manifest.fileName = content home w.disk Manifest.fileName ∧
      s.manifest = c.manifest
  skipped : s.Clean → detection.skipped = []
  reworked : s.result.filesFailed = 0 → Reworked look c.manifest s.manifest
    detection.changes.Writes detection.changes.Removes fun p => p ∈ detection.changes.mentioned
  flags : s.Clean → ∃ d, Same home w.disk d ∧ ∀ found,
    (setting.treeView filter d).headDivergence = .paths found →
    ∀ p r, s.manifest.get? p = some r → r.diverged = found.contains r.path
  unread : s.unreadable = detection.skipped.length
  idle : detection.changes.isEmpty = true → detection.skipped = [] → w.isCancelled = false →
    setting.Idle home filter c w s

variable {setting home filter} in
theorem Finished.records {look : String → FileState} {c : RunContext} {detection : Detection}
    {w : World σ} {s : RunState σ} (h : setting.Finished home filter look c detection w s)
    (hclean : s.Clean) : Reworked look c.manifest s.manifest detection.changes.Writes
      detection.changes.Removes fun p => p ∈ detection.changes.mentioned :=
  h.reworked hclean.1

structure Begun (c : RunContext) (detection : Detection) (force : Bool) (w : World σ)
    (plan : RunPlan) (s : RunState σ) : Prop where
  same : Same home w.disk s.world.disk
  world : s.world.store = w.store ∧ s.world.clock = w.clock ∧
    s.world.isCancelled = w.isCancelled
  manifest : s.manifest = c.manifest
  checkpoint : s.checkpoint =
    ({ c.checkpoint with targetCommit := detection.head } : Checkpoint).begin w.clock
  saved : World.Saved home Checkpoint.fileName s.checkpoint.fileText w s.world
  status : s.result.status = .completed
  missed : s.core.missed = detection.skipped.length
  sound : s.optimizer.Sound
  force : plan.force = force
  requests : s.world.requests = w.requests

/-- A run that gets past its beginning saves its checkpoint and goes through its batches. What it
reports is how it concludes then. -/
theorem execute_rule (hstill : setting.env.Still) (c : RunContext) (detection : Detection)
    (force : Bool) (w : World σ) (hready : Ready setting.stateDir home w.disk)
    (Q : RunReport σ → World σ → Prop)
    (h : ∀ plan s flow t outcome u, Begun home c detection force w plan s →
      s = setting.startState s.world c s.checkpoint detection →
      plan.divergence = (setting.treeView filter s.world.disk).headDivergence →
      (runBatches setting plan detection.changes).run s = (flow, t) →
      (setting.conclude plan flow).run t = (outcome, u) →
      Q ⟨u, outcome.map fun r => { r with
        lastIndexedCommit := u.checkpoint.lastIndexedCommit }⟩ u.world) :
    Runs (setting.execute filter c detection force) w Q (fun _ _ => False) := by
  unfold execute
  rw [runs_bind, runs_get, runs_bind]
  apply runs_imp _ _ _ (World.save_saved setting.env hstill Checkpoint.fileName _ w hready
    (by decide)) ?_ fun _ _ h => h
  intro _ w₁ hsaved
  rw [runs_bind, runs_get]
  dsimp only
  -- from here on the checkpoint and the plan are only known by what `Begun` says of them
  generalize hbegin : ({ c.checkpoint with targetCommit := detection.head } :
    Checkpoint).begin w.clock = begun at hsaved ⊢
  generalize hplan : RunPlan.mk detection.head
    (detection.head.isSome && detection.head != begun.lastIndexedCommit)
    (setting.treeView filter w₁.disk).headDivergence force = plan
  have hbegun : Begun home c detection force w plan (setting.startState w₁ c begun detection) := by
    obtain ⟨disk, moments, heq⟩ := hsaved.rest
    rw [← hplan]
    refine ⟨hsaved.same, ?_, rfl, hbegin.symm, hsaved, rfl, Nat.zero_add _,
      BatchOptimizer.start_sound _ _, rfl, ?_⟩
    · show w₁.store = w.store ∧ w₁.clock = w.clock ∧ w₁.isCancelled = w.isCancelled
      rw [heq]
      exact ⟨rfl, rfl, rfl⟩
    · show w₁.requests = w.requests
      rw [heq]
  rcases hrun : (runBatches setting plan detection.changes).run
    (setting.startState w₁ c begun detection) with ⟨flow, t⟩
  rcases hend : (setting.conclude plan flow).run t with ⟨outcome, u⟩
  dsimp only
  rw [hend]
  exact h plan _ flow t outcome u hbegun rfl (by rw [← hplan]; rfl) hrun hend

/-- The end of a run, by how its batches ended. A failure leaves a checkpoint that says so, and one
of the store is reported; any other is raised, whether the checkpoint can be saved or not. -/
theorem conclude_rule (plan : RunPlan) (flow : Except IndexError Ending) (s : RunState σ)
    {Q : IndexResult → RunState σ → Prop} {E : IndexError → RunState σ → Prop}
    (hfinished : flow = .ok .finished → Runs (setting.complete plan) s Q E)
    (hcancelled : flow = .ok .cancelled → Q (s.result.abort "cancelled") s)
    (hfailed : ∀ cause, flow = .error (.storeWrite cause) →
      Runs (saveCheckpoint setting) (failCheckpoint s)
        (fun _ t => Q (t.result.abort ("store write failed: " ++ cause.message)) t) E)
    (hraised : ∀ e, flow = .error e →
      Runs (saveCheckpoint setting) (failCheckpoint s) (fun _ t => E e t) fun _ t => E e t) :
    Runs (setting.conclude plan flow) s Q E := by
  unfold conclude
  split
  · exact hfinished rfl
  · exact hcancelled rfl
  · rename_i cause
    simp only [runs_bind, runs_modify, runs_get, runs_pure]
    exact hfailed cause rfl
  · rename_i e _
    simp only [runs_bind, runs_modify, runs_throw]
    exact runs_kept _ (saveCheckpoint setting) id (fun _ => ()) _ _
      (fun _ t ht => by simp only [ExceptT.run, ExceptT.mk] at ht ⊢; rw [ht])
      (fun e t ht => by simp only [ExceptT.run, ExceptT.mk] at ht ⊢; rw [ht]) (hraised e rfl)

theorem conclude_finished (plan : RunPlan) (flow : Except IndexError Ending) (t u : RunState σ)
    (res : IndexResult) (h : (setting.conclude plan flow).run t = (.ok res, u))
    (hres : res.status ≠ .aborted) : flow = .ok .finished := by
  have hconclude : Runs (setting.conclude plan flow) t
      (fun res _ => res.status ≠ .aborted → flow = .ok .finished) (fun _ _ => True) := by
    apply conclude_rule setting
    · exact fun hflow => runs_any _ _ _ _ (fun _ _ _ => hflow) fun _ _ => trivial
    · exact fun _ hnot => absurd rfl hnot
    · exact fun _ _ => runs_any _ _ _ _ (fun _ _ hnot => absurd rfl hnot) fun _ _ => trivial
    · exact fun _ _ => runs_any _ _ _ _ (fun _ _ => trivial) fun _ _ => trivial
  exact runs_ok _ _ _ hconclude h hres

section Executed

variable {setting home filter} {look : String → FileState} {c : RunContext} {detection : Detection}
  {force : Bool} {w : World σ} {plan : RunPlan} {s t u : RunState σ}

/-- A run that has nothing to do is finished at once unless it was cancelled. -/
theorem Begun.idle (h : Begun home c detection force w plan s)
    (hnone : detection.changes.isEmpty = true) (hcalm : w.isCancelled = false) :
    (runBatches setting plan detection.changes).run s = (.ok .finished, s) :=
  runBatches_idle setting plan hnone (h.world.2.2.trans hcalm)

/-- After a failure of the store the checkpoint is saved as that of a failed run. -/
theorem conclude_failed (hstill : setting.env.Still) (plan : RunPlan) (cause : StoreError)
    (t : RunState σ) (hready : Ready setting.stateDir home t.world.disk) :
    Runs (setting.conclude plan (.error (.storeWrite cause))) t
      (fun res u => (∃ w,
          World.Saved home Checkpoint.fileName (failCheckpoint t).checkpoint.fileText t.world w ∧
            u = { failCheckpoint t with world := w }) ∧
        res = u.result.abort ("store write failed: " ++ cause.message)) (fun _ _ => False) := by
  unfold conclude
  rw [runs_bind, runs_modify, runs_bind]
  apply runs_imp _ _ _ (saveCheckpoint_saved setting hstill (failCheckpoint t) hready)
  · exact fun _ _ h => ⟨h, rfl⟩
  · exact fun _ _ h => h

/-- What a run has done by the time it is completed, put together from its beginning, its batches
and its end. -/
theorem Begun.finished (hbegun : Begun home c detection force w plan s)
    (hstart : s = setting.startState s.world c s.checkpoint detection)
    (hdivergence : plan.divergence = (setting.treeView filter s.world.disk).headDivergence)
    (hreading : Reading home s t) (hstored : Stored s home t)
    (hrecords : t.core.missed = s.core.missed → Reworked look s.manifest t.manifest
      detection.changes.Writes detection.changes.Removes fun p => p ∈ detection.changes.mentioned)
    (hidle : detection.changes.isEmpty = true → w.isCancelled = false → t = s)
    (h : Completed home plan t u) : setting.Finished home filter look c detection w u := by
  have hclock (hv : w.clock.Valid) : t.world.clock.Valid :=
    hreading.clock (hbegun.world.2.1 ▸ hv)
  have hunread : u.unreadable = detection.skipped.length := by
    rw [h.counts.2, hreading.unread, hstart]
    rfl
  have hcontinues := hreading.checkpoint
  rw [hbegun.checkpoint] at hcontinues
  have hkept : content home s.world.disk Manifest.fileName =
      content home w.disk Manifest.fileName := hbegun.saved.others _ (by decide) (by decide)
  refine ⟨hbegun.same.trans (hreading.same.trans h.same), fun hv => ?_, ?_, ?_, h.checkpointText,
    ?_, ?_, fun hv => ?_, fun hk => ?_, fun hv hst => ?_, ?_, fun hc => ?_, fun hfailed => ?_,
    fun hc => ?_, hunread, fun hnone hskipped hcalm => ?_⟩
  · rw [h.world.2]
    exact hclock hv
  · -- the commit that the index reflects, as the checkpoint is completed
    rw [h.checkpoint]
    show (if decide t.Clean = true then
      t.checkpoint.targetCommit.or t.checkpoint.lastIndexedCommit
      else t.checkpoint.lastIndexedCommit) = _
    rw [hcontinues.target, hcontinues.last]
    simp only [decide_eq_true_eq, h.clean_same]
    rfl
  · rw [h.checkpoint]
    rfl
  · rw [h.checkpoint]
    exact hcontinues.schema
  · rw [h.checkpoint]
    exact hcontinues.started
  · rw [h.checkpoint]
    exact hclock hv
  · exact h.keyed (hreading.keyed (hbegun.manifest ▸ hk))
  · exact h.storable (hclock hv) (hreading.storable (hbegun.world.2.1 ▸ hv) (hbegun.manifest ▸ hst))
  · -- a manifest that was not saved is the one from before the run
    rcases h.stored_since hstored with hnow | ⟨hsame, hm⟩
    · exact .inl hnow
    · exact .inr ⟨hsame.trans hkept, hm.trans hbegun.manifest⟩
  · exact List.length_eq_zero_iff.mp (hunread.symm.trans hc.2)
  · -- what was found unreadable at the beginning is all that was missed
    have hmissed : t.core.missed = s.core.missed := by
      show t.result.filesFailed + t.unreadable = _
      rw [← h.counts.1, hfailed, ← h.counts.2, hunread, hbegun.missed, Nat.zero_add]
    have hwork := hrecords hmissed
    rw [hbegun.manifest] at hwork
    refine ⟨fun p hp => ?_, fun p hp => ?_, fun p hp => ?_⟩ <;> rw [h.hashAt_eq]
    · exact hwork.kept p hp
    · exact hwork.dropped p hp
    · exact hwork.rest p hp
  · exact ⟨s.world.disk, hbegun.same, fun found hfound =>
      h.flags hc (hdivergence.trans hfound)⟩
  · -- nothing was done between the beginning and the end
    have ht := hidle hnone hcalm
    have hclean : t.Clean := by
      rw [clean_iff, ht, hbegun.missed, hskipped]
      rfl
    refine ⟨h.clean_same.mpr hclean, ?_, ?_, ?_, ?_, s.world.disk, t.now, hbegun.same, ?_⟩
    · rw [h.world.1, ht]
      exact hbegun.world.1
    · rw [h.calls.1, h.calls.2, ht]
      obtain ⟨disk, moments, heq⟩ := hbegun.saved.rest
      rw [heq]
      exact ⟨rfl, rfl⟩
    · rw [h.counts.1, ht, hstart]
      exact ⟨rfl, rfl⟩
    · rw [h.checkpoint, ht, hbegun.checkpoint]
      rfl
    · rw [h.manifest, if_pos hclean, ht, hbegun.manifest, hdivergence]

variable (setting home filter) in
/-- A run that gets past its beginning is aborted, and then the index reflects the commit that it
did before, or it is finished. -/
theorem execute_ended (hstill : setting.env.Still) (look : String → FileState) (c : RunContext)
    (detection : Detection) (force : Bool) (w : World σ)
    (hready : Ready setting.stateDir home w.disk) (hwork : detection.changes.Workable look)
    (hseen : Seen setting.root home w.disk look) :
    Runs (setting.execute filter c detection force) w
      (fun report w' => report.state.world = w' ∧ ∃ res, report.outcome = .ok res ∧
        res.lastIndexedCommit = report.state.checkpoint.lastIndexedCommit ∧
        res = { report.state.result with
          status := res.status
          abortReason := res.abortReason
          lastIndexedCommit := res.lastIndexedCommit } ∧
        (detection.changes.isEmpty = true → w.isCancelled = false → res.status = .completed) ∧
        (res.status = .aborted ∧ res.lastIndexedCommit = c.reference ∧
            (detection.changes.isEmpty = true → w.isCancelled = true) ∨
          setting.Finished home filter look c detection w report.state)) (fun _ _ => False) := by
  apply execute_rule setting home filter hstill c detection force w hready
  intro plan s flow t outcome u hbegun hstart hdivergence hrun hend
  have hready₁ : Ready setting.stateDir home s.world.disk := hready.of_same hbegun.same
  have hnothing (hnone : detection.changes.isEmpty = true) (hcalm : w.isCancelled = false) :
      flow = .ok .finished ∧ t = s :=
    Prod.mk.inj (hrun.symm.trans (hbegun.idle hnone hcalm))
  -- a run that is aborted had something to do or was cancelled
  have hbusy (hflow : flow ≠ .ok .finished) (hnone : detection.changes.isEmpty = true) :
      w.isCancelled = true :=
    (Bool.eq_false_or_eq_true _).resolve_right fun hcalm => hflow (hnothing hnone hcalm).1
  have hcompleted {status : RunOutcome} (hflow : flow ≠ .ok .finished)
      (hnone : detection.changes.isEmpty = true) (hcalm : w.isCancelled = false) :
      status = .completed :=
    absurd (hnothing hnone hcalm).1 hflow
  have hlast (hc : s.checkpoint.Continues t.checkpoint) :
      t.checkpoint.lastIndexedCommit = c.reference := by
    rw [hc.last, hbegun.checkpoint]
    rfl
  have hbatches := runBatches_records setting plan hstill hwork hready₁ (hseen.of_same hbegun.same)
  cases flow with
  | error e =>
    obtain ⟨hsince, cause, rfl⟩ := runs_error _ _ _ hbatches hrun
    obtain ⟨res, u', hu', ⟨w', _, rfl⟩, rfl⟩ := runs_returns _
      (conclude_failed hstill plan cause t (hready₁.of_same hsince.same))
    cases hend.symm.trans hu'
    have hflow : Except.error (IndexError.storeWrite cause) ≠ .ok Ending.finished :=
      fun h => by cases h
    exact ⟨rfl, _, rfl, rfl, rfl, hcompleted hflow,
      .inl ⟨rfl, hlast hsince.checkpoint, hbusy hflow⟩⟩
  | ok ending =>
    obtain ⟨hreading, hfinished⟩ := runs_ok _ _ _ hbatches hrun
    cases ending with
    | cancelled =>
      cases hend
      have hflow : (Except.ok Ending.cancelled : Except IndexError Ending) ≠ .ok .finished :=
        fun h => by cases h
      exact ⟨rfl, _, rfl, rfl, rfl, hcompleted hflow,
        .inl ⟨rfl, hlast hreading.checkpoint, hbusy hflow⟩⟩
    | finished =>
      obtain ⟨hstored, hrecords⟩ := hfinished rfl
      obtain ⟨res, u', hu', hdone, hres⟩ := runs_returns _
        (complete_completed setting hstill plan t (hready₁.of_same hreading.same))
      cases hend.symm.trans hu'
      have hcounts : res = { u.result with status := res.status } := by
        rw [hres, hdone.counts.1]
        unfold IndexResult.finish
        split <;> rfl
      have hidle (hnone : detection.changes.isEmpty = true) (hcalm : w.isCancelled = false) :
          res.status = .completed := by
        rw [hres, (hnothing hnone hcalm).2, hstart]
        rfl
      exact ⟨rfl, _, rfl, rfl, by rw [hcounts], hidle,
        .inr (hbegun.finished hstart hdivergence hreading hstored hrecords
          (fun hnone hcalm => (hnothing hnone hcalm).2) hdone)⟩

end Executed

structure Opened (w : World σ) (c : RunContext) (w' : World σ) : Prop where
  rest : w'.store = w.store ∧ w'.clock = w.clock ∧ w'.isCancelled = w.isCancelled ∧
    w'.storeCalls = w.storeCalls ∧ w'.requests = w.requests
  same : Same home w.disk w'.disk
  kept : ∀ name ∈ kept, content home w'.disk name = content home w.disk name
  manifest : w.loadManifest setting.stateDir = .ok c.manifest
  checkpoint : ∃ previous, w.loadCheckpoint setting.stateDir = .ok previous ∧
    ((∃ c₀, previous = some c₀ ∧ c₀.status.isResumable = true ∧ c.checkpoint = c₀ ∧
        c.isResumed = true) ∨
      ∃ id, c.checkpoint = .newRun id (previous.bind (·.lastIndexedCommit)) none w.clock ∧
        c.isResumed = false)

variable {home filter} in
/-- The manifest at the end of a run is the one that the next run loads. -/
theorem Finished.loaded {look : String → FileState} {c : RunContext} {detection : Detection}
    {w : World σ} {s : RunState σ} (h : setting.Finished home filter look c detection w s)
    (hready : Ready setting.stateDir home w.disk) (hclock : w.clock.Valid)
    (hload : w.loadManifest setting.stateDir = .ok c.manifest) :
    s.world.loadManifest setting.stateDir = .ok s.manifest := by
  have hready' := hready.of_same h.same
  have hstorable := h.storable hclock (World.loadManifest_storable w hready _ hload)
  rcases h.manifestText with hcontent | ⟨hcontent, hm⟩
  · exact World.loadManifest_saved _ hready' _ hstorable hcontent
  · rw [World.loadManifest_eq _ hready', hcontent, hm, ← World.loadManifest_eq w hready]
    exact hload

def Barred (w : World σ) : Prop :=
  home ++ [World.lockName] ∈ w.held ∨
    (∃ e, w.loadCheckpoint setting.stateDir = .error e) ∨
    (∃ e, w.loadManifest setting.stateDir = .error e)

variable {home}

theorem Opened.reference {w w' : World σ} {c : RunContext} (h : setting.Opened home w c w') :
    ∃ previous, w.loadCheckpoint setting.stateDir = .ok previous ∧
      c.reference = previous.bind (·.lastIndexedCommit) := by
  obtain ⟨previous, hload, hcase⟩ := h.checkpoint
  refine ⟨previous, hload, ?_⟩
  unfold RunContext.reference
  rcases hcase with ⟨c₀, rfl, _, hc, _⟩ | ⟨id, hc, _⟩
  · rw [hc]
    rfl
  · rw [hc]
    rfl

/-- The number of the last batch, where a run goes on from one, fits the checkpoint file. -/
theorem Opened.numbered {w w' : World σ} {c : RunContext} (h : setting.Opened home w c w')
    (hready : Ready setting.stateDir home w.disk) (n : Nat)
    (hn : c.checkpoint.lastCompletedBatch = some n) : n < Nat.pow 2 64 := by
  obtain ⟨previous, hload, ⟨c₀, rfl, _, hc, _⟩ | ⟨id, hc, _⟩⟩ := h.checkpoint
  · rw [hc] at hn
    exact (World.loadCheckpoint_storable w hready c₀ hload).batch n hn
  · rw [hc] at hn
    cases hn

/-- The schema and the start of the checkpoint fit its file, whether it was loaded or is new. -/
theorem Opened.stamped {w w' : World σ} {c : RunContext} (h : setting.Opened home w c w')
    (hready : Ready setting.stateDir home w.disk) (hclock : w.clock.Valid) :
    c.checkpoint.schemaVersion = Checkpoint.currentSchema ∧ c.checkpoint.startedAt.Valid := by
  obtain ⟨previous, hload, ⟨c₀, rfl, _, hc, _⟩ | ⟨id, hc, _⟩⟩ := h.checkpoint
  · have hstorable := World.loadCheckpoint_storable w hready c₀ hload
    rw [hc]
    exact ⟨hstorable.schema, hstorable.started⟩
  · rw [hc]
    exact ⟨rfl, hclock⟩

/-- In a ready state directory a run begins, unless the lock is held or a file is corrupt. -/
theorem openRun_opened (w : World σ) (hready : Ready setting.stateDir home w.disk) :
    Runs setting.openRun w (setting.Opened home w) (fun _ _ => setting.Barred home w) := by
  unfold openRun
  rw [runs_bind]
  apply World.lock_taken w hready
  · intro w₁ hw₁ hsame hkept
    have hload := World.load_congr hready (hready.of_same hsame) hkept
    obtain ⟨disk, moments, heq⟩ := hw₁
    have hrest : w₁.store = w.store ∧ w₁.clock = w.clock ∧ w₁.isCancelled = w.isCancelled ∧
        w₁.storeCalls = w.storeCalls ∧ w₁.requests = w.requests := by
      rw [heq]
      exact ⟨rfl, rfl, rfl, rfl, rfl⟩
    unfold openRun.liftExcept
    rw [runs_bind, runs_get, runs_bind, runs_mk_pure, hload.1]
    cases hcheckpoint : w.loadCheckpoint setting.stateDir with
    | error e => exact .inr (.inl ⟨e, hcheckpoint⟩)
    | ok previous =>
      dsimp only
      rw [runs_bind, runs_mk_pure, hload.2]
      cases hmanifest : w.loadManifest setting.stateDir with
      | error e => exact .inr (.inr ⟨e, hmanifest⟩)
      | ok manifest =>
        dsimp only
        -- a run goes on with a checkpoint that can be resumed, and is a new one otherwise
        cases previous with
        | none =>
          unfold freshRunId
          rw [runs_bind, runs_modifyGet, runs_pure]
          exact ⟨hrest, hsame, hkept, hmanifest, none, hcheckpoint,
            .inr ⟨_, by rw [← hrest.2.1]; rfl, rfl⟩⟩
        | some c₀ =>
          dsimp only
          split
          · rename_i hresumable
            rw [runs_pure]
            exact ⟨hrest, hsame, hkept, hmanifest, some c₀, hcheckpoint,
              .inl ⟨c₀, rfl, hresumable, rfl, rfl⟩⟩
          · unfold freshRunId
            rw [runs_bind, runs_modifyGet, runs_pure]
            exact ⟨hrest, hsame, hkept, hmanifest, some c₀, hcheckpoint,
              .inr ⟨_, by rw [← hrest.2.1]; rfl, rfl⟩⟩
  · exact fun hheld _ => .inl hheld

/-- Does what is asked for. -/
def perform : RunRequest → RunM (World σ) (RunReport σ)
  | .repository mode => setting.indexRepository mode
  | .changeset changes => setting.indexChangeset changes

/-- What a run detects that is asked for something. -/
def detection (filter : FileFilter) (d : Disk) (m : Manifest) (reference : Option String) :
    RunRequest → Detection
  | .repository .full => (setting.treeView filter d).detectAll m
  | .repository (.auto target) => (setting.treeView filter d).detect m reference target
  | .changeset changes =>
    let found := confirm m (filter.inspect d) changes
    ⟨found.changes, .supplied, setting.headOf d, found.skipped⟩

theorem perform_eq (request : RunRequest) :
    setting.perform request = (do
      let c ← setting.openRun
      let filter ← ExceptT.mk (pure (setting.config.filterOf setting.root))
      let d := (← get).disk
      setting.execute filter c (setting.detection filter d c.manifest c.reference request)
        request.force) := by
  rcases request with mode | changes
  · cases mode <;> rfl
  · rfl

variable {filter} in
theorem runs_perform (hfilter : setting.config.filterOf setting.root = .ok filter)
    (request : RunRequest) (w : World σ) (Q : RunReport σ → World σ → Prop)
    (E : IndexError → World σ → Prop) :
    Runs (setting.perform request) w Q E ↔
      Runs setting.openRun w (fun c w₁ => Runs (setting.execute filter c
        (setting.detection filter w₁.disk c.manifest c.reference request) request.force) w₁ Q E)
        E := by
  rw [perform_eq, hfilter]
  simp only [runs_bind, runs_mk_pure, runs_get]

variable {filter} in
theorem perform_run (hfilter : setting.config.filterOf setting.root = .ok filter)
    (request : RunRequest) {w w₁ : World σ} {c : RunContext}
    (hopen : setting.openRun.run w = (.ok c, w₁)) :
    (setting.perform request).run w = (setting.execute filter c
      (setting.detection filter w₁.disk c.manifest c.reference request) request.force).run w₁ := by
  have hget : (get : RunM (World σ) (World σ)).run w₁ = (.ok w₁, w₁) := rfl
  have hmade : (ExceptT.mk (pure (.ok filter)) : RunM (World σ) FileFilter).run w₁ =
      (.ok filter, w₁) := rfl
  rw [perform_eq, run_bind_ok _ _ c w₁ hopen, hfilter, run_bind_ok _ _ filter w₁ hmade,
    run_bind_ok _ _ w₁ w₁ hget]

/-- A run that is not a resumed one begins anew once it has the lock. -/
theorem openRun_anew {w w₁ : World σ} {c : Checkpoint} {m : Manifest}
    (hlock : (World.lock setting.stateDir).run w = (.ok (), w₁))
    (hcheckpoint : w₁.loadCheckpoint setting.stateDir = .ok (some c))
    (hmanifest : w₁.loadManifest setting.stateDir = .ok m)
    (hdone : c.status.isResumable = false) :
    setting.openRun.run w =
      (.ok ⟨.newRun (setting.env.runId (w₁.runsStarted + 1)) c.lastIndexedCommit none w₁.clock, m,
        false⟩, { w₁ with runsStarted := w₁.runsStarted + 1 }) := by
  have hget : (get : RunM (World σ) (World σ)).run w₁ = (.ok w₁, w₁) := rfl
  have hloaded {α : Type} {x : Except IndexError α} {a : α} (hx : x = .ok a) :
      (openRun.liftExcept x : RunM (World σ) α).run w₁ = (.ok a, w₁) := by
    rw [hx]
    rfl
  unfold openRun
  rw [run_bind_ok _ _ () w₁ hlock, run_bind_ok _ _ w₁ w₁ hget,
    run_bind_ok _ _ _ w₁ (hloaded hcheckpoint), run_bind_ok _ _ _ w₁ (hloaded hmanifest)]
  dsimp only
  rw [hdone]
  rfl

variable {filter} in
/-- A run after a completed one works with the records as they are on file, and with a checkpoint of
its own. -/
theorem perform_anew (hfilter : setting.config.filterOf setting.root = .ok filter)
    (request : RunRequest) {w : World σ} (hready : Ready setting.stateDir home w.disk)
    (hfree : home ++ [World.lockName] ∉ w.held) {c : Checkpoint} {m : Manifest}
    (hcheckpoint : w.loadCheckpoint setting.stateDir = .ok (some c))
    (hmanifest : w.loadManifest setting.stateDir = .ok m)
    (hdone : c.status.isResumable = false) :
    let w₁ := ((World.lock setting.stateDir).run w).2
    (setting.perform request).run w = (setting.execute filter
      ⟨.newRun (setting.env.runId (w.runsStarted + 1)) c.lastIndexedCommit none w.clock, m, false⟩
      (setting.detection filter w₁.disk m c.lastIndexedCommit request) request.force).run
        { w₁ with runsStarted := w.runsStarted + 1 } := by
  intro w₁
  obtain ⟨_, w₂, hlock, ⟨disk, moments, hworld⟩, hsame, hkept⟩ :=
    runs_returns (World.lock setting.stateDir)
      (World.lock_taken w hready
        (fun _ w₂ => (∃ disk moments, w₂ = { w with disk := disk, moments := moments }) ∧
          Same home w.disk w₂.disk ∧
          ∀ name ∈ kept, content home w₂.disk name = content home w.disk name) (fun _ _ => False)
        (fun _ hworld hsame hkept => ⟨hworld, hsame, hkept⟩)
        fun hheld => absurd hheld hfree)
  obtain ⟨hcheckpoint₂, hmanifest₂⟩ := World.load_congr hready (hready.of_same hsame) hkept
  have hopen := openRun_anew setting hlock (hcheckpoint₂.trans hcheckpoint)
    (hmanifest₂.trans hmanifest) hdone
  have hlocked : w₁ = w₂ := congrArg Prod.snd hlock
  have hrest : w₂.runsStarted = w.runsStarted ∧ w₂.clock = w.clock := by
    rw [hworld]
    exact ⟨rfl, rfl⟩
  rw [perform_run setting hfilter request hopen, hlocked, hrest.1, hrest.2]
  rfl

/-- Whatever is asked for, a run can work through what it detects. -/
theorem detection_workable (d : Disk) (m : Manifest) (reference : Option String)
    (request : RunRequest) :
    (setting.detection filter d m reference request).changes.Workable (filter.inspect d) := by
  rcases request with mode | changes
  · cases mode with
    | full => exact TreeView.detectAll_workable (setting.treeView filter d) m
    | auto target =>
      obtain ⟨source, heq⟩ := (setting.treeView filter d).detect_confirm m reference target
      show ((setting.treeView filter d).detect m reference target).changes.Workable _
      rw [heq]
      exact (confirm_founded m _ _).workable
  · exact (confirm_founded m (filter.inspect d) changes).workable

theorem detection_head (d : Disk) (m : Manifest) (reference : Option String)
    (request : RunRequest) :
    (setting.detection filter d m reference request).head = setting.headOf d := by
  rcases request with mode | changes
  · cases mode with
    | full => rfl
    | auto target =>
      obtain ⟨source, heq⟩ := (setting.treeView filter d).detect_confirm m reference target
      show ((setting.treeView filter d).detect m reference target).head = _
      rw [heq]
      rfl
  · rfl

structure Performed (home : Location) (filter : FileFilter) (request : RunRequest) (w : World σ)
    (c : RunContext) (w₁ : World σ) (report : RunReport σ) (w' : World σ)
    (res : IndexResult) : Prop where
  opened : setting.Opened home w c w₁
  world : report.state.world = w'
  outcome : report.outcome = .ok res
  last : res.lastIndexedCommit = report.state.checkpoint.lastIndexedCommit
  counts : res = { report.state.result with
    status := res.status
    abortReason := res.abortReason
    lastIndexedCommit := res.lastIndexedCommit }
  idle : (setting.detection filter w₁.disk c.manifest c.reference request).changes.isEmpty = true →
    w₁.isCancelled = false → res.status = .completed
  ended : res.status = .aborted ∧ res.lastIndexedCommit = c.reference ∧
      ((setting.detection filter w₁.disk c.manifest c.reference request).changes.isEmpty = true →
        w₁.isCancelled = true) ∨
    setting.Finished home filter (filter.inspect w₁.disk) c
      (setting.detection filter w₁.disk c.manifest c.reference request) w₁ report.state

variable {filter} in
/-- The manifest at the end of a finished run is the one that the next run loads. -/
theorem Performed.loaded {request : RunRequest} {w w₁ w' : World σ} {c : RunContext}
    {report : RunReport σ} {res : IndexResult} {detection : Detection} {look : String → FileState}
    (h : setting.Performed home filter request w c w₁ report w' res)
    (hfinished : setting.Finished home filter look c detection w₁ report.state)
    (hready : Ready setting.stateDir home w.disk) (hclock : w.clock.Valid) :
    w'.loadManifest setting.stateDir = .ok report.state.manifest := by
  have hready₁ := hready.of_same h.opened.same
  rw [← h.world]
  apply hfinished.loaded setting hready₁
  · rw [h.opened.rest.2.1]
    exact hclock
  · rw [(World.load_congr hready hready₁ h.opened.kept).2]
    exact h.opened.manifest

variable {filter} in
/-- The checkpoint at the end of a finished run is the one that the next run loads. -/
theorem Performed.checkpointLoaded {request : RunRequest} {w w₁ w' : World σ} {c : RunContext}
    {report : RunReport σ} {res : IndexResult} {detection : Detection} {look : String → FileState}
    (h : setting.Performed home filter request w c w₁ report w' res)
    (hfinished : setting.Finished home filter look c detection w₁ report.state)
    (hready : Ready setting.stateDir home w.disk) (hclock : w.clock.Valid)
    (hbatch : ∀ n, report.state.checkpoint.lastCompletedBatch = some n → n < Nat.pow 2 64) :
    w'.loadCheckpoint setting.stateDir = .ok (some report.state.checkpoint) := by
  have hclock₁ : w₁.clock.Valid := by
    rw [h.opened.rest.2.1]
    exact hclock
  obtain ⟨hschema, hstarted⟩ := h.opened.stamped setting hready hclock
  rw [← h.world]
  apply World.loadCheckpoint_saved _ ((hready.of_same h.opened.same).of_same hfinished.same) _ _
    hfinished.checkpointText
  exact ⟨hfinished.schema.trans hschema, hbatch, hfinished.started ▸ hstarted,
    hfinished.timestamp hclock₁⟩

variable {filter} in
/-- Once a run is finished, nothing but the lock bars the next one, which begins with the records and
the commit that it has left. -/
theorem Performed.next {request : RunRequest} {w w₁ w' w₂ : World σ} {c : RunContext}
    {report : RunReport σ} {res : IndexResult} {detection : Detection} {look : String → FileState}
    (h : setting.Performed home filter request w c w₁ report w' res)
    (hfinished : setting.Finished home filter look c detection w₁ report.state)
    (hready : Ready setting.stateDir home w.disk) (hclock : w.clock.Valid)
    (hbatch : ∀ n, report.state.checkpoint.lastCompletedBatch = some n → n < Nat.pow 2 64)
    (hdisk : w₂.disk = w'.disk) (hlock : home ++ [World.lockName] ∉ w₂.held) :
    ¬ setting.Barred home w₂ ∧
      w₂.loadManifest setting.stateDir = .ok report.state.manifest ∧
      ∀ c₂ w₃, setting.Opened home w₂ c₂ w₃ → c₂.manifest = report.state.manifest ∧
        c₂.reference = report.state.checkpoint.lastIndexedCommit := by
  have hsame : Same home w.disk w'.disk := by
    rw [← h.world]
    exact h.opened.same.trans hfinished.same
  have hready' : Ready setting.stateDir home w'.disk := hready.of_same hsame
  obtain ⟨hcheckpoint, hmanifest⟩ :=
    World.load_congr hready' (hdisk ▸ hready') fun name _ => by rw [hdisk]
  rw [h.checkpointLoaded setting hfinished hready hclock hbatch] at hcheckpoint
  rw [h.loaded setting hfinished hready hclock] at hmanifest
  refine ⟨?_, hmanifest, fun c₂ w₃ hopened => ?_⟩
  · rintro (hheld | ⟨e, he⟩ | ⟨e, he⟩)
    · exact hlock hheld
    · rw [hcheckpoint] at he
      cases he
    · rw [hmanifest] at he
      cases he
  · obtain ⟨previous, hprevious, hreference⟩ := hopened.reference
    rw [hcheckpoint] at hprevious
    rw [hreference, ← Except.ok.inj hprevious]
    exact ⟨Except.ok.inj (hopened.manifest.symm.trans hmanifest), rfl⟩

/-- After its beginning, a run that is asked for something is aborted or finished. -/
theorem perform_opened (hstill : setting.env.Still)
    (hfilter : setting.config.filterOf setting.root = .ok filter) (request : RunRequest)
    (w w₁ : World σ) (c : RunContext) (hready : Ready setting.stateDir home w.disk)
    (hapart : filter.Apart home w.disk) (hopen : setting.openRun.run w = (.ok c, w₁)) :
    Runs (setting.perform request) w
      (fun report w' => ∃ res, setting.Performed home filter request w c w₁ report w' res)
      (fun _ _ => False) := by
  have hroot : filter.root = setting.root := FileFilter.ofConfig_root _ _ _ hfilter
  have hopened := runs_ok _ _ _ (openRun_opened setting w hready) hopen
  have hseen : Seen setting.root home w₁.disk (filter.inspect w₁.disk) := by
    rw [← hroot]
    exact (hapart.of_same hopened.same).seen
  rw [Runs, perform_run setting hfilter request hopen]
  apply runs_imp _ _ _ (execute_ended setting home filter hstill (filter.inspect w₁.disk) c
    (setting.detection filter w₁.disk c.manifest c.reference request) request.force w₁
    (hready.of_same hopened.same) (detection_workable setting filter _ _ _ _) hseen)
  · rintro report w' ⟨hworld, res, hres, hlast, hcounts, hidle, hended⟩
    exact ⟨res, hopened, hworld, hres, hlast, hcounts, hidle, hended⟩
  · exact fun _ _ h => h

/-- A run that is asked for something does not get past its beginning, is aborted, or is
finished. -/
theorem perform_performed (hstill : setting.env.Still)
    (hfilter : setting.config.filterOf setting.root = .ok filter) (request : RunRequest)
    (w : World σ) (hready : Ready setting.stateDir home w.disk)
    (hapart : filter.Apart home w.disk) :
    Runs (setting.perform request) w
      (fun report w' => ∃ c w₁ res,
        setting.Performed home filter request w c w₁ report w' res)
      (fun _ _ => setting.Barred home w) := by
  cases hopen : setting.openRun.run w with
  | mk outcome w₁ =>
    cases outcome with
    | error e =>
      have hbarred := runs_error _ _ _ (openRun_opened setting w hready) hopen
      rw [perform_eq, runs_bind, Runs, hopen]
      exact hbarred
    | ok c =>
      apply runs_imp _ _ _
        (perform_opened setting filter hstill hfilter request w w₁ c hready hapart hopen)
      · rintro report w' ⟨res, h⟩
        exact ⟨c, w₁, res, h⟩
      · exact fun _ _ h => h.elim

/-- A run begins in a world where the state directory is yet to be made as in one where it is
made. -/
theorem openRun_made (w : World σ) (d : Disk)
    (hmade : w.disk.makeDirectoryAll setting.stateDir = .ok d)
    (hready : Ready setting.stateDir home d) :
    setting.openRun.run w = setting.openRun.run { w with disk := d } := by
  have hchange : (World.change (·.makeDirectoryAll setting.stateDir)).run w =
      (World.change (·.makeDirectoryAll setting.stateDir)).run { w with disk := d } :=
    (World.run_change _ w d hmade).trans
      (World.run_change _ { w with disk := d } d hready.made).symm
  unfold openRun
  apply run_bind_congr
  unfold World.lock
  apply run_bind_congr
  exact hchange

/-- A run in a world where the state directory is yet to be made is one where it is made. -/
theorem perform_made (request : RunRequest) (w : World σ) (d : Disk)
    (hmade : w.disk.makeDirectoryAll setting.stateDir = .ok d)
    (hready : Ready setting.stateDir home d) :
    (setting.perform request).run w = (setting.perform request).run { w with disk := d } := by
  rw [perform_eq]
  apply run_bind_congr
  exact openRun_made setting w d hmade hready

/-- A run that finds nothing to do is finished without a failure. -/
theorem perform_idle (hstill : setting.env.Still)
    (hfilter : setting.config.filterOf setting.root = .ok filter) (request : RunRequest)
    (w : World σ) (hready : Ready setting.stateDir home w.disk)
    (hapart : filter.Apart home w.disk) (hfree : ¬ setting.Barred home w)
    (hcalm : w.isCancelled = false)
    (hidle : ∀ c w₁, setting.Opened home w c w₁ →
      (setting.detection filter w₁.disk c.manifest c.reference request).changes.isEmpty = true ∧
      (setting.detection filter w₁.disk c.manifest c.reference request).skipped = []) :
    ∃ c w₁ report w' res, setting.openRun.run w = (.ok c, w₁) ∧
      (setting.perform request).run w = (.ok report, w') ∧
      setting.Performed home filter request w c w₁ report w' res ∧
      setting.Finished home filter (filter.inspect w₁.disk) c
        (setting.detection filter w₁.disk c.manifest c.reference request) w₁ report.state ∧
      report.state.Clean := by
  obtain ⟨c, w₁, hopen, hopened⟩ := runs_returns setting.openRun
    (runs_imp _ _ _ (openRun_opened setting w hready) (fun _ _ h => h) fun _ _ h => hfree h)
  obtain ⟨report, w', hrun, res, hperformed⟩ := runs_returns (setting.perform request)
    (perform_opened setting filter hstill hfilter request w w₁ c hready hapart hopen)
  obtain ⟨hnone, hskipped⟩ := hidle c w₁ hopened
  have hcalm₁ : w₁.isCancelled = false := hopened.rest.2.2.1.trans hcalm
  refine ⟨c, w₁, report, w', res, hopen, hrun, hperformed, ?_⟩
  rcases hperformed.ended with ⟨_, _, hcancelled⟩ | hfinished
  · rw [hcancelled hnone] at hcalm₁
    cases hcalm₁
  · exact ⟨hfinished, (hfinished.idle hnone hskipped hcalm₁).clean⟩

end RunSetting

/-! ### A small root -/

def sampleDisk (files : List (String × String)) : Disk :=
  ⟨.ofList ([(["w"], DiskNode.directory), (["w", ".sift"], DiskNode.directory)] ++
    files.map fun (name, text) => (["w", name], DiskNode.file text.toUTF8 0))⟩

def sampleHome : Location := ["w", ".sift"]

def sampleFilter : FileFilter := (({} : RunConfig).filterOf "/w").toOption.getD default

theorem sampleFilter_eq : ({} : RunConfig).filterOf "/w" = .ok sampleFilter := by
  have hok : (({} : RunConfig).filterOf "/w").toOption.isSome = true := by decide
  unfold sampleFilter
  revert hok
  cases ({} : RunConfig).filterOf "/w" with
  | error e =>
    intro hok
    cases hok
  | ok f => exact fun _ => rfl

def sampleSetting (x : Extractor) (git : Disk → Git.View) : RunSetting MemoryStore where
  config := {}
  root := "/w"
  extractor := x
  store := MemoryStore.calls
  env := {
    git := git
    reply := fun _ texts => ⟨.zero, some (.ok (texts.map fun _ => []))⟩
    maxBatch := 8
    dimensions := 1
    runId := fun _ => "run" }

theorem sample_still (x : Extractor) (git : Disk → Git.View) : (sampleSetting x git).env.Still where
  request _ _ := rfl
  store _ _ _ h := by cases h
  write _ := rfl

theorem sample_stateDir (x : Extractor) (git : Disk → Git.View) :
    (sampleSetting x git).stateDir = "/w/.sift" := by
  show ({} : RunConfig).stateDirOf "/w" = "/w/.sift"
  decide

def sampleCheckpoint (commit : String) : Checkpoint where
  runId := "run"
  status := .completed
  lastIndexedCommit := some commit
  targetCommit := some commit
  processedFiles := ∅
  lastCompletedBatch := none
  startedAt := ⟨⟨2024, 1, 1⟩, 0, 0⟩
  timestamp := ⟨⟨2024, 1, 1⟩, 0, 0⟩

theorem sample_clock : Timestamp.Valid ⟨⟨2024, 1, 1⟩, 0, 0⟩ := by
  constructor <;> decide

theorem sampleCheckpoint_storable (commit : String) : (sampleCheckpoint commit).Storable where
  schema := rfl
  batch n h := by cases h
  started := sample_clock
  timestamp := sample_clock

/-- The state directory of a small root is ready, if it is an empty directory. -/
theorem sample_ready (d : Disk) (hthere : d.lookup sampleHome = some .directory)
    (hchain : ∀ path ∈ chain "" (Disk.steps "/w/.sift"), d.stat path = .ok .directory)
    (hplaces : ∀ name ∈ names,
      d.locate (Path.join "/w/.sift" name) = .ok (sampleHome ++ [name]) ∧
      d.locateEntry (Path.join "/w/.sift" name) = .ok (sampleHome ++ [name]) ∧
      d.lookup (sampleHome ++ [name]) = none) : Ready "/w/.sift" sampleHome d where
  clean := by decide
  chain := hchain
  there := hthere
  located name hname := (hplaces name hname).1
  entered name hname := (hplaces name hname).2.1
  leaf place hplace := by
    obtain ⟨name, hname, rfl⟩ := List.mem_map.mp hplace
    exact .inl (hplaces name hname).2.2

theorem sample_apart (d : Disk) (hlinks : d.Linkless) : sampleFilter.Apart sampleHome d := by
  have hname : sampleFilter.config.stateDir = ".sift" := by decide
  have hroot : sampleFilter.root = "/w" := by decide
  apply FileFilter.apart_of_linkless hlinks
  · rw [hname]
    decide
  · rw [hname, hroot]
    decide
  · rw [hname]
    decide
  · rw [hname]
    decide

theorem sample_reads {d d' : Disk} (hready : Ready "/w/.sift" sampleHome d) (hlinks : d.Linkless)
    {p : String} {hash : ContentHash} (hlook : sampleFilter.inspect d p = .present hash)
    (hsame : Same sampleHome d d') :
    d'.readFile (Path.join "/w" p) = d.readFile (Path.join "/w" p) := by
  have hroot : sampleFilter.root = "/w" := by decide
  obtain ⟨content, modified, _, hall⟩ := (sample_apart d hlinks).seen p hash hlook
  rw [hroot] at hall
  rw [hall d' hsame, hall d hready.same_refl]

def sampleWorld (d : Disk) (c : Checkpoint) (m : Manifest) : World MemoryStore where
  disk := World.holding sampleHome d c m
  store := {}
  clock := ⟨⟨2024, 1, 1⟩, 0, 0⟩

theorem sample_open (x : Extractor) (git : Disk → Git.View) (d : Disk) (c : Checkpoint)
    (m : Manifest) (w : World MemoryStore) (hdisk : w.disk = World.holding sampleHome d c m)
    (hheld : w.held = []) (hready : Ready "/w/.sift" sampleHome d) (hlinks : d.Linkless)
    (hc : c.Storable) (hm : m.Storable) :
    Ready (sampleSetting x git).stateDir sampleHome w.disk ∧
      sampleFilter.Apart sampleHome w.disk ∧ ¬ (sampleSetting x git).Barred sampleHome w := by
  have hdir : (sampleSetting x git).stateDir = "/w/.sift" := sample_stateDir x git
  have hsame := World.holding_same c m hready
  obtain ⟨hcheckpoint, hmanifest⟩ := World.load_holding c m w hready hc hm hdisk
  rw [hdir, hdisk]
  refine ⟨hready.of_same hsame, (sample_apart d hlinks).of_same hsame, ?_⟩
  unfold RunSetting.Barred
  rw [hdir, hcheckpoint, hmanifest, hheld]
  rintro (h | ⟨e, h⟩ | ⟨e, h⟩)
  · exact absurd h List.not_mem_nil
  · cases h
  · cases h

def namedExtractor : Extractor :=
  ⟨fun _ => true, fun _ text => .ok [⟨.function, text, ⟨1, 1⟩, none, none, text⟩]⟩

def namedSetting : RunSetting MemoryStore := sampleSetting namedExtractor fun _ => .outside

def namedEntity (text : String) : Entity :=
  { (⟨.function, text, ⟨1, 1⟩, none, none, text⟩ : ExtractedEntity).mint (text ++ ".py") text
      .metadata with
    id := text }

def namedRecord (text : String) : FileRecord where
  path := text ++ ".py"
  contentHash := Digest.contentHash text.toUTF8
  lastSeenCommit := none
  modificationTime := 0
  lineage := text
  entityIds := [text]

def namedManifest : List String → Manifest
  | [] => .empty
  | text :: rest => (namedManifest rest).recordIndexed (namedRecord text) .zero

def namedStore : List String → MemoryStore
  | [] => {}
  | text :: rest => (namedStore rest).upsert [⟨namedEntity text, []⟩]

theorem namedManifest_storable (texts : List String) : (namedManifest texts).Storable := by
  have hnow : Duration.zero.secs < Nat.pow 2 63 := by decide
  have htime : 0 < Nat.pow 2 64 := by decide
  induction texts with
  | nil => exact Manifest.empty_storable
  | cons text rest ih => exact ih.recordIndexed (namedRecord text) htime .zero hnow

theorem namedManifest_keyed (texts : List String) : (namedManifest texts).Keyed := by
  induction texts with
  | nil => exact Manifest.keyed_empty
  | cons text rest ih => exact Manifest.keyed_recordIndexed _ _ _ ih

theorem get?_namedManifest (texts : List String) (p : String) :
    (namedManifest texts).get? p =
      (texts.find? fun text => text ++ ".py" = p).map namedRecord := by
  induction texts with
  | nil => exact Manifest.get?_empty p
  | cons text rest ih =>
    rw [namedManifest, Manifest.get?_recordIndexed, ih, List.find?_cons]
    show (if text ++ ".py" = p then _ else _) = _
    by_cases hp : text ++ ".py" = p
    · simp [hp]
    · simp [hp]

end CodeIndex
