import CodeIndex.Proofs.Run.Chronicle

/-!
What is told of the freshness of an index after any runs. The judgement has only the checkpoint that
was saved last: a run that did not come to its end is always seen there, but a file that was missed
is seen only by the commit that the index was kept from advancing to.
-/

namespace CodeIndex

open StateDir

namespace Freshness

variable {c : Checkpoint} {head : Option String} {now : Timestamp} {maxAge : Option Duration}

/-- A run that is to be gone on with is a reason to index again. -/
theorem runIncomplete_mem (head : Option String) (age : Duration) (maxAge : Option Duration)
    (h : c.Unfinished) :
    StaleReason.runIncomplete ∈ reasonsFor c head age maxAge := by
  have hstatus : c.status.isResumable = true := h
  unfold reasonsFor
  rw [if_pos hstatus]
  simp only [List.mem_append, List.mem_singleton, true_or, or_true]

theorem assess_unfinished (h : c.Unfinished) :
    (assess (some c) head now maxAge).isStale = true := by
  have hmem := runIncomplete_mem head (now.age c.timestamp) maxAge h
  unfold isStale assess
  rw [Bool.not_eq_true', List.isEmpty_eq_false_iff]
  exact List.ne_nil_of_mem hmem

/-- Once a run is complete, and as long as it is not too old, the only reason to index again is a
commit that the index does not reflect. -/
theorem assess_fresh (h : c.status = .completed)
    (hage : ∀ limit, maxAge = some limit → ¬ limit < now.age c.timestamp) :
    (assess (some c) head now maxAge).isStale = false ↔
      head = none ∨ c.lastIndexedCommit = head := by
  have hnever : neverCompleted c = false := by
    unfold neverCompleted
    rw [h]
    rfl
  have hover : c.status.isResumable = false := by
    rw [h]
    rfl
  have hrecent : maxAge.any (· < now.age c.timestamp) = false := by
    rw [Option.any_eq_false]
    exact fun limit hlimit => decide_eq_false (hage limit hlimit)
  have hbehind : isBehind c head = false ↔ head = none ∨ c.lastIndexedCommit = head := by
    unfold isBehind
    rw [hnever]
    cases head <;> simp
  unfold isStale assess reasonsFor
  dsimp only
  rw [hnever, hover, hrecent, ← hbehind]
  simp

/-- The commit that a complete run refers to is the one that was checked out if the run was clean,
or had no commit to advance to. -/
theorem settled_iff {σ : Type} {reference head : Option String} {s : RunState σ}
    (h : c.Settles reference head s) :
    head = none ∨ c.lastIndexedCommit = head ↔ s.Clean ∨ head = none ∨ reference = head := by
  rw [h.commit]
  by_cases hclean : s.Clean
  · rw [if_pos hclean]
    cases head <;> simp [hclean]
  · rw [if_neg hclean]
    simp [hclean]

end Freshness

variable {σ : Type} {directory : String} {home : Location}

/-- The commit that the index reflects, by the checkpoint that a run finds. -/
def World.reference (w : World σ) (directory : String) : Option String :=
  match w.loadCheckpoint directory with
  | .ok (some c) => c.lastIndexedCommit
  | _ => none

/-- A run that is turned away before it begins changes neither of the two files, and one that begins
reports the world that it leaves. -/
theorem RunSetting.perform_begins (setting : RunSetting σ) (request : RunRequest) (w : World σ)
    (hready : Ready setting.stateDir home w.disk) :
    Runs (setting.perform request) w (fun report w' => report.state.world = w')
      (fun _ w' => Spared setting.stateDir home w.disk w'.disk) := by
  rw [perform_eq, runs_bind]
  -- whatever the files hold, the beginning writes nothing but the lock
  have hopen : Runs setting.openRun w (fun _ w' => Spared setting.stateDir home w.disk w'.disk)
      (fun _ w' => Spared setting.stateDir home w.disk w'.disk) := by
    unfold openRun
    rw [runs_bind]
    apply runs_imp _ _ _ (World.lock_unfiled w hready)
    · rintro _ w' ⟨hw', _⟩
      have hdisk := hw'.disk
      unfold openRun.liftExcept freshRunId
      simp only [runs_bind, runs_get, runs_mk_pure]
      split
      · split
        · split
          · split <;> exact hdisk
          · exact hdisk
        · exact hdisk
      · exact hdisk
    · exact fun _ w' hw' => hw'.disk
  apply runs_imp _ _ _ hopen
  · intro c w₁ hw₁
    rw [runs_bind, runs_mk_pure]
    split
    · rw [runs_bind, runs_get]
      unfold execute
      rw [runs_bind, runs_get, runs_bind]
      apply runs_imp _ _ _ (World.save_filed setting.env Checkpoint.fileName _ w₁ hw₁.ready
        (by decide))
      · intro _ w₂ _
        rw [runs_bind, runs_get]
        exact rfl
      · exact fun _ w₂ hw₂ => hw₁.trans hw₂.1.unfiled.disk
    · exact hw₁
  · exact fun _ _ h => h

/-- From one world to a later one no run begins: anything may happen, but not to the files of the
state directory, and runs are turned away before they save anything. -/
inductive Lull (directory : String) (home : Location) (w : World σ) : World σ → Prop where
  | start : Lull directory home w w
  | between {v : World σ} (h : Lull directory home w v) (v' : World σ)
      (hspared : Spared directory home v.disk v'.disk) : Lull directory home w v'
  | turned {v v' : World σ} (h : Lull directory home w v) (setting : RunSetting σ)
      (request : RunRequest) (e : IndexError) (hdirectory : setting.stateDir = directory)
      (hrun : (setting.perform request).run v = (.error e, v')) : Lull directory home w v'

theorem Lull.spared {w w' : World σ} (h : Lull directory home w w')
    (hready : Ready directory home w.disk) : Spared directory home w.disk w'.disk := by
  induction h with
  | start => exact hready.spared
  | between h v' hspared ih => exact ih.trans hspared
  | turned h setting request e hdirectory hrun ih =>
    subst hdirectory
    exact ih.trans (runs_error _ e _ (setting.perform_begins request _ ih.ready) hrun)

namespace Chronicle

variable {runId : Nat → String} {runs : Nat} {w w' w'' : World σ} {trail : List (Sight σ)}
  {setting : RunSetting σ} {request : RunRequest} {d : Disk} {report : RunReport σ}
  {new : List (Moment σ)}

/-- What a run leaves for a checkpoint is loaded until another run begins. -/
theorem leaves (past : Chronicle directory home runId runs w trail)
    (hinjective : Function.Injective runId) (hdirectory : setting.stateDir = directory)
    (hids : setting.env.runId = runId) (hspares : setting.env.Spares directory home)
    (hmade : d.makeDirectoryAll directory = .ok w.disk)
    (hrun : (setting.perform request).run { w with disk := d } = (.ok report, w'))
    (hmoments : w'.moments = new ++ w.moments)
    (hfew : batchesBegun (new.map (⟨·, setting.shift request { w with disk := d } runs⟩) ++ trail) <
      Nat.pow 2 64) (hlull : Lull directory home w' w'') :
    report.state.world = w' ∧ ∃ c, w''.loadCheckpoint directory = .ok (some c) ∧
      report.Leaves (w.reference directory)
        (setting.headOf (setting.openRun.run { w with disk := d }).2.disk) c := by
  -- the batches begun before the run are fewer, too
  have hbefore : batchesBegun trail < Nat.pow 2 64 :=
    Nat.lt_of_le_of_lt (List.sublist_append_right _ trail).countP_le hfew
  obtain ⟨l, hl⟩ := past.accounted hinjective hbefore
  have hreference : w.reference directory = l.checkpoint.bind (·.lastIndexedCommit) := by
    unfold World.reference
    rw [(hl.held.load hl.ready hl.account.sound
      (Nat.lt_of_le_of_lt hl.account.count hbefore)).2]
    cases l.checkpoint <;> rfl
  subst hdirectory
  obtain ⟨hperform, hshift⟩ := shift_made setting request runs hmade hl.ready
  have hhead : (setting.shift request w runs).head =
      setting.headOf (setting.openRun.run { w with disk := d }).2.disk :=
    congrArg Shift.head hshift.symm
  rw [hperform] at hrun
  rw [hshift] at hfew
  obtain ⟨l', hkeeps, hleft⟩ := hl.performed hinjective hbefore setting request rfl hids hspares
  rw [hrun] at hkeeps hleft
  obtain ⟨c, hc, hleaves⟩ := hleft
  rw [hhead, ← hreference] at hleaves
  obtain ⟨all, hall, _, hcount⟩ := hkeeps.moments
  have heq : all = new := List.append_cancel_right (hall.symm.trans hmoments)
  subst heq
  -- what follows the run leaves the checkpoint as it is
  have hspared := hlull.spared hkeeps.ready
  obtain ⟨_, hload⟩ := (hkeeps.held.spared hspared).load hspared.ready hkeeps.sound
    (Nat.lt_of_le_of_lt hcount hfew)
  exact ⟨runs_ok _ report w' (setting.perform_begins request w hl.ready) hrun, c,
    hload.trans (congrArg _ hc), hleaves⟩

/-- After any runs, the index is told to be fresh exactly when the last run that began is finished
and missed no file, or had no commit to advance to: none was checked out, or the index was at it
already. The freshness is judged with the commit that this run detected, and not too late. -/
theorem fresh_iff (past : Chronicle directory home runId runs w trail)
    (hinjective : Function.Injective runId) (hdirectory : setting.stateDir = directory)
    (hids : setting.env.runId = runId) (hspares : setting.env.Spares directory home)
    (hmade : d.makeDirectoryAll directory = .ok w.disk)
    (hrun : (setting.perform request).run { w with disk := d } = (.ok report, w'))
    (hmoments : w'.moments = new ++ w.moments)
    (hfew : batchesBegun (new.map (⟨·, setting.shift request { w with disk := d } runs⟩) ++ trail) <
      Nat.pow 2 64) (hlull : Lull directory home w' w'') (checker : RunSetting σ)
    (hchecked : checker.stateDir = directory) (head : Option String)
    (hdetected : setting.headOf (setting.openRun.run { w with disk := d }).2.disk = head)
    (hhead : checker.headOf w''.disk = head)
    (hage : ∀ limit, checker.config.maxAge = some limit → ¬ limit < w''.clock.age w'.clock) :
    ∃ f, checker.freshness w'' = .ok f ∧
      (f.isStale = false ↔ report.IsFinished ∧
        (report.state.Clean ∨ head = none ∨ w.reference directory = head)) ∧
      (¬ report.IsFinished → StaleReason.runIncomplete ∈ f.reasons) := by
  obtain ⟨hworld, c, hload, hleaves⟩ :=
    past.leaves hinjective hdirectory hids hspares hmade hrun hmoments hfew hlull
  rw [hdetected] at hleaves
  refine ⟨.assess (some c) head w''.clock checker.config.maxAge, ?_, ?_, fun hnot =>
    Freshness.runIncomplete_mem head _ _ (hleaves.stopped hnot)⟩
  · unfold RunSetting.freshness
    rw [hchecked, hload, ← hhead]
    rfl
  · by_cases hfinished : report.IsFinished
    · have hsettles := hleaves.finished hfinished
      rw [Freshness.assess_fresh hsettles.status, Freshness.settled_iff hsettles]
      · exact ⟨fun h => ⟨hfinished, h⟩, fun h => h.2⟩
      · rw [hsettles.timestamp, hworld]
        exact hage
    · rw [Freshness.assess_unfinished (hleaves.stopped hfinished)]
      exact ⟨fun h => (by cases h), fun h => absurd h.1 hfinished⟩

end Chronicle

/-- The index of the small root is fresh after a run. -/
theorem indexed_fresh : ∃ report w' f,
    (indexedSetting.perform (.repository .full)).run indexedWorld = (.ok report, w') ∧
      indexedSetting.freshness w' = .ok f ∧ f.isStale = false := by
  obtain ⟨report, w', hrun, hfinished, hclean, hlength, hclock⟩ := indexed_ended
  have hnow : indexedSetting.config.maxAge = some (.ofSecs 86400) := rfl
  obtain ⟨f, hf, hfresh, _⟩ := indexed_start.fresh_iff indexed_injective indexed_stateDir rfl
    (indexed_still.spares _ _) indexed_ready.made hrun (List.append_nil _).symm
    (Nat.lt_of_le_of_lt List.countP_le_length (by simp [hlength])) .start indexedSetting
    indexed_stateDir none rfl rfl (fun limit hlimit => by
      rw [hnow] at hlimit
      cases hlimit
      rw [hclock]
      decide)
  exact ⟨report, w', f, hrun, hf, hfresh.mpr ⟨hfinished, .inl hclean⟩⟩

section Broken

def brokenSetting : RunSetting MemoryStore :=
  { indexedSetting with extractor := ⟨fun _ => true, fun path _ => .error (.parse path)⟩ }

theorem broken_ended : ∃ report w',
    (brokenSetting.perform (.repository .full)).run indexedWorld = (.ok report, w') ∧
      report.IsFinished ∧ report.state.result.filesFailed = 1 ∧ w'.moments.length < 22 ∧
      w'.clock = ⟨⟨2024, 1, 1⟩, 0, 0⟩ :=
  runs_returns _ (by decide +kernel)

/-- There the run finishes with its file left out, and the index is told to be fresh. -/
theorem broken_fresh : ∃ report w' f,
    (brokenSetting.perform (.repository .full)).run indexedWorld = (.ok report, w') ∧
      report.IsFinished ∧ report.state.result.filesFailed = 1 ∧
      brokenSetting.freshness w' = .ok f ∧ f.currentHead = none ∧ f.isStale = false := by
  obtain ⟨report, w', hrun, hfinished, hfailed, hlength, hclock⟩ := broken_ended
  have hdirectory : brokenSetting.stateDir = "/w/.sift" := indexed_stateDir
  obtain ⟨hworld, c, hload, hleaves⟩ := indexed_start.leaves indexed_injective hdirectory rfl
    (indexed_still.spares _ _) indexed_ready.made hrun (List.append_nil _).symm
    (Nat.lt_of_le_of_lt List.countP_le_length (by simp; omega)) .start
  have hsettles := hleaves.finished hfinished
  refine ⟨report, w', .assess (some c) none w'.clock brokenSetting.config.maxAge, hrun, hfinished,
    hfailed, ?_, rfl, ?_⟩
  · unfold RunSetting.freshness
    rw [hdirectory, hload]
    rfl
  · rw [Freshness.assess_fresh hsettles.status]
    · exact .inl rfl
    · rw [hsettles.timestamp, hworld, hclock]
      decide

end Broken

end CodeIndex
