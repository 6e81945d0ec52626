import CodeIndex.Proofs.Run.Execute
import CodeIndex.Proofs.Run.Filling
import CodeIndex.Proofs.Run.Restructure
import CodeIndex.Proofs.Run.Undecided

/-!
Runs in calm surroundings, where no call to the store fails and nothing cancels a run: each one that
gets past its beginning goes through all its batches and is finished. With a provider and an
extractor that never fail it misses no file.
-/

namespace CodeIndex

open StateDir

structure Surroundings.Calm (env : Surroundings) : Prop where
  cancels : ∀ n, env.cancelsAt n = false
  store : ∀ call n, env.atStore call n = .proceed

def RunSetting.Reliable {σ : Type} (setting : RunSetting σ) : Prop :=
  (∃ vector, setting.Faithful vector) ∧
    ∀ path content, ∃ found, setting.extractor.find path content = .ok found

def Legible {σ : Type} (setting : RunSetting σ) (home : Location) (d : Disk) (p : String) : Prop :=
  ∃ content modified, ∀ d', Same home d d' →
    d'.readFile (Path.join setting.root p) = .ok (content, modified)

theorem ChangeSet.Workable.legible {σ : Type} {setting : RunSetting σ} {home : Location} {d : Disk}
    {look : String → FileState} {changes : ChangeSet} (h : changes.Workable look)
    (hseen : Seen setting.root home d look) (p : String) (hp : changes.Writes p) :
    Legible setting home d p := by
  obtain ⟨hash, hlook⟩ := h.present p hp
  obtain ⟨content, modified, _, hall⟩ := hseen p hash hlook
  exact ⟨content, modified, hall⟩

/-- Where no call to the store fails all edits of an act are made. -/
theorem World.Makes.calm {env : Surroundings} {α : Type} {x : StoreM (World MemoryStore) α}
    {w : World MemoryStore} {edits : List StoreEdit} (h : World.Makes env x w edits)
    (hstore : ∀ call n, env.atStore call n = .proceed) :
    Runs x w (fun _ w' => w.Called w') (fun _ _ => False) := by
  apply runs_imp _ _ _ h
  · rintro _ w' ⟨rfl, _⟩
    exact World.performed_called w edits
  · rintro e w' ⟨done, edit, rest, _, _, hfail, _⟩
    rw [hstore] at hfail
    cases hfail

namespace RunState

structure Steady {σ : Type} (setting : RunSetting σ) (home : Location) (s t : RunState σ) : Prop
    extends Since home s t where
  calm : t.world.isCancelled = false
  status : t.result.status = .completed
  sound : t.optimizer.Sound
  reliable : setting.Reliable → t.core.missed = s.core.missed

variable {setting : RunSetting MemoryStore} {home : Location} {s t : RunState MemoryStore}

theorem Steady.quiet {u : RunState MemoryStore} (h : Steady setting home s t)
    (hcalm : setting.env.Calm) (hq : Quiet setting.env t u) : Steady setting home s u where
  toSince := hq.since setting h.toSince
  calm := (hq.calm hcalm.cancels).trans h.calm
  status := (congrArg Core.status hq.core).trans h.status
  sound := hq.optimizer h.sound
  reliable hr := (core_missed hq.core).trans (h.reliable hr)

/-- A change of the manifest after calls to the store leads to a steady state. -/
theorem Steady.called (h : Steady setting home s t) {w : World MemoryStore} (hw : t.world.Called w)
    (m : Manifest) (hkeyed : t.manifest.Keyed → m.Keyed)
    (hstorable : w.unixTime.Storable → t.manifest.Storable → m.Storable) :
    Steady setting home s { t with world := w, manifest := m } := by
  have hsince := h.toSince.called hw m hkeyed hstorable
  obtain ⟨store, calls, moments, rfl⟩ := hw
  exact ⟨hsince, h.calm, h.status, h.sound, h.reliable⟩

theorem commitBatch_steady (hstill : setting.env.Still) (files : List String)
    (hready : Ready setting.stateDir home s.world.disk) (h : Steady setting home s t) :
    Runs (commitBatch setting files) t (fun _ u => Steady setting home s u) (fun _ _ => False) := by
  apply runs_imp _ _ _ (commitBatch_committed setting hstill files t (hready.of_same h.same))
  · intro _ u hu
    refine ⟨hu.since h.toSince, hu.cancelled.trans h.calm, ?_, ?_, fun hr => ?_⟩
    · exact (congrArg Core.status hu.core).trans h.status
    · rw [hu.optimizer]
      exact h.sound
    · exact (congrArg Core.missed hu.core).trans (h.reliable hr)
  · exact fun _ _ h => h

theorem forget_steady (hcalm : setting.env.Calm) (hstill : setting.env.Still)
    (hstore : setting.store = MemoryStore.calls) (path : String) (h : Steady setting home s t) :
    Runs (forget setting path) t (fun _ u => Steady setting home s u) (fun _ _ => False) := by
  rw [runs_forget, hstore]
  apply runs_imp _ _ _ ((World.makes_deleteFile hstill path).calm hcalm.store)
  · exact fun _ w hw => h.called hw _ (Manifest.keyed_removeFile _ _ _)
      fun hnow hs => hs.removeFile _ _ hnow
  · exact fun _ _ h => h

theorem applyStructural_steady (hcalm : setting.env.Calm) (hstill : setting.env.Still)
    (hstore : setting.store = MemoryStore.calls) (plan : RunPlan) (changes : ChangeSet)
    (hready : Ready setting.stateDir home s.world.disk)
    (hlegible : ∀ p, changes.Writes p → Legible setting home s.world.disk p)
    (h : Steady setting home s s) :
    Runs (applyStructural setting plan changes) s
      (fun reindex t => (∀ p ∈ reindex, changes.Writes p) ∧ Steady setting home s t)
      (fun _ _ => False) := by
  apply runs_imp _ _ _ (applyStructural_keeps setting plan changes
    (fun _ t => Steady setting home s t) (fun t => Steady setting home s t) _ s
    (h.called ⟨_, _, _, rfl⟩ _ id fun _ hs => hs)
    (fun _ path t ht => forget_steady hcalm hstill hstore path ht) ?_ ?_
    (fun touched t ht => commitBatch_steady hstill touched hready ht)
    fun t u ht hu => ht.quiet hcalm (hu.quiet setting.env))
  · exact fun _ _ ht => ⟨fun p hp => .inr (.inr (ht.2 p hp)), ht.1⟩
  · exact fun _ _ h => h
  · intro _ source target t ht
    rw [runs_relocate, hstore]
    apply runs_imp _ _ _ ((World.makes_renameFile hstill source target _).calm hcalm.store)
    · exact fun _ w hw => ht.called hw _ (relocated_keyed _ _ _ _ _)
        fun hnow hs => relocated_storable _ _ _ _ _ hs hnow
    · exact fun _ _ h => h
  · -- every target can be read
    intro _ source target e t hmem hread ht
    obtain ⟨content, modified, hall⟩ := hlegible target (.inr (.inr ⟨_, hmem, rfl⟩))
    rw [hall _ ht.same] at hread
    cases hread

theorem Gathered.ready {plan : RunPlan} {m : Manifest} {paths : List String} {next : Prepared}
    (h : Gathered setting plan home s m paths next) (hreliable : setting.Reliable)
    (hlegible : ∀ p ∈ paths, Legible setting home s.world.disk p) :
    ∃ file, next = .ready file := by
  obtain ⟨p, hp, d, hsame, rfl⟩ := h
  obtain ⟨content, modified, hall⟩ := hlegible p hp
  obtain ⟨found, hfound⟩ := hreliable.2 p content
  have hread : d.readFile (Path.join setting.root (WorkItem.ofPath m p).path) =
      .ok (content, modified) := by
    rw [WorkItem.ofPath_path]
    exact hall d hsame
  rw [prepare_read setting plan.force hread]
  unfold prepareContent
  rw [WorkItem.ofPath_path, hfound]
  exact ⟨_, rfl⟩

theorem steady_carried (hcalm : setting.env.Calm) (hstill : setting.env.Still)
    (hstore : setting.store = MemoryStore.calls) (plan : RunPlan)
    (hready : Ready setting.stateDir home s.world.disk) (m : Manifest) (paths : List String)
    (hlegible : ∀ p ∈ paths, Legible setting home s.world.disk p) :
    Carried setting plan home s m paths (fun _ t => Steady setting home s t)
      (fun _ _ t => Steady setting home s t) (fun _ _ => False) where
  same _ _ h := h.same
  sound _ _ h := h.sound
  fewer _ _ _ h _ := h
  quiet _ _ _ h hq := h.quiet hcalm hq
  take _ t pending next hnext h := by
    have hsince := since_takePrepared h.toSince pending next
    have hmissed (hr : setting.Reliable) :
        (takePrepared t pending next).1.core.missed = s.core.missed := by
      obtain ⟨file, rfl⟩ := hnext.ready hr hlegible
      exact h.reliable hr
    cases next <;> exact ⟨hsince, h.calm, h.status, h.sound, hmissed⟩
  start _ _ _ _ h hq := (h.called ⟨_, _, _, rfl⟩ _ id fun _ hs => hs).quiet hcalm hq
  fail _ path _ _ e hnever h := ⟨since_addFailure h.toSince path e, h.calm, h.status, h.sound,
    fun hr => hr.1.elim fun vector hvector => absurd hvector (hnever vector)⟩
  write _ file vectors _ t hripe _ _ _ h := by
    obtain ⟨_, d, _, hprepared⟩ := hripe
    have htime := (prepare_faithful setting plan.force d m file.path file hprepared).2.time
    rw [runs_writeFile, hstore]
    apply runs_imp _ _ _ ((World.makes_updateFile hstill file.path file.previousIds
      file.currentIds (withVectors file.fresh vectors) file.hasRecord).calm hcalm.store)
    · exact fun _ w hw => h.called hw _ (Manifest.keyed_recordIndexed _ _ _)
        fun hnow hs => hs.recordIndexed _ htime _ hnow
    · exact fun _ _ h => h
  commit _ done _ _ _ h hq :=
    commitBatch_steady hstill done hready (h.quiet hcalm hq)

theorem runBatches_steady (hcalm : setting.env.Calm) (hstill : setting.env.Still)
    (hstore : setting.store = MemoryStore.calls) (plan : RunPlan) (changes : ChangeSet)
    (hready : Ready setting.stateDir home s.world.disk)
    (hlegible : ∀ p, changes.Writes p → Legible setting home s.world.disk p)
    (h : Steady setting home s s) :
    Runs (runBatches setting plan changes) s
      (fun ending t => ending = .finished ∧ Steady setting home s t) (fun _ _ => False) := by
  -- nothing cancels the run while it goes through its files
  have hrest (reindex : List String) (hreindex : ∀ p ∈ reindex, changes.Writes p)
      (t : RunState MemoryStore) (ht : Steady setting home s t) :
      Runs (drain setting plan
          (sortedPaths (changes.added ++ changes.modified ++ reindex)).length
          { items := (sortedPaths (changes.added ++ changes.modified ++ reindex)).map
              (WorkItem.ofPath t.manifest) }) t
        (fun ending u => ending = .finished ∧ Steady setting home s u) (fun _ _ => False) := by
    have hcarried := steady_carried hcalm hstill hstore plan hready t.manifest
      (sortedPaths (changes.added ++ changes.modified ++ reindex))
      fun p hp => hlegible p (ChangeSet.writes_of_left hreindex hp)
    apply runs_imp _ _ _ (hcarried.drain hstill (sortedPaths_nodup _) t ht)
    · rintro ending u ⟨hu, hcancelled⟩
      cases ending with
      | finished => exact ⟨rfl, hu⟩
      | cancelled =>
        have hcontra := hcancelled rfl
        rw [hu.calm] at hcontra
        cases hcontra
    · exact fun _ _ h => h
  apply runBatches_rule setting plan changes
    (fun reindex t => (∀ p ∈ reindex, changes.Writes p) ∧ Steady setting home s t)
  · intro hcancelled
    rw [h.calm] at hcancelled
    cases hcancelled
  · exact fun _ _ => ⟨fun _ h => absurd h List.not_mem_nil, h⟩
  · exact applyStructural_steady hcalm hstill hstore plan changes hready hlegible h
  · exact fun reindex t ht => hrest reindex ht.1 t ht.2

end RunState

namespace RunSetting

open RunState

section Ends

variable {σ : Type} (setting : RunSetting σ) (home : Location) (filter : FileFilter)

/-- A run ends by how its batches end: it is aborted when these fail or are cancelled, and else it
is completed. -/
theorem execute_batches (hstill : setting.env.Still) (c : RunContext) (detection : Detection)
    (force : Bool) (w : World σ) (hready : Ready setting.stateDir home w.disk)
    (B : Ending → RunState σ → Prop) (E : IndexError → RunState σ → Prop)
    (hbatches : ∀ plan s, Begun home c detection force w plan s →
      Runs (runBatches setting plan detection.changes) s
        (fun ending t => Same home s.world.disk t.world.disk ∧ B ending t) E) :
    Runs (setting.execute filter c detection force) w
      (fun report w' => report.state.world = w' ∧ ∀ res, report.outcome = .ok res →
        (res.status = .aborted ∧ (B .cancelled report.state ∨ ∃ plan e t res', E e t ∧
            (setting.conclude plan (.error e)).run t = (.ok res', report.state))) ∨
          ∃ plan t, B .finished t ∧ Completed home plan t report.state ∧
            res.status = t.result.finish.status) (fun _ _ => False) := by
  apply execute_rule setting home filter hstill c detection force w hready
  intro plan s flow t outcome u hbegun _ _ hrun hend
  refine ⟨rfl, fun res hres => ?_⟩
  cases flow with
  | error e =>
    cases outcome with
    | error e' => cases hres
    | ok res' =>
      -- whatever the checkpoint comes to, the result is that of an aborted run
      have haborted : res'.status = .aborted := by
        by_contra hne
        cases setting.conclude_finished plan _ t u res' hend hne
      cases hres
      exact .inl ⟨haborted, .inr ⟨plan, e, t, res',
        runs_error _ _ _ (hbatches plan s hbegun) hrun, hend⟩⟩
  | ok ending =>
    obtain ⟨hsame, hb⟩ := runs_ok _ _ _ (hbatches plan s hbegun) hrun
    cases ending with
    | cancelled =>
      cases hend
      cases hres
      exact .inl ⟨rfl, .inl hb⟩
    | finished =>
      have hready' : Ready setting.stateDir home t.world.disk :=
        (hready.of_same hbegun.same).of_same hsame
      obtain ⟨res', u', hu', hcompleted, hfinish⟩ :=
        runs_returns _ (complete_completed setting hstill plan t hready')
      cases hend.symm.trans hu'
      cases hres
      exact .inr ⟨plan, t, hb, hcompleted, by rw [hfinish]⟩

end Ends

variable {filter : FileFilter} {home : Location}

theorem perform_finished (setting : RunSetting MemoryStore) (hcalm : setting.env.Calm)
    (hstill : setting.env.Still) (hstore : setting.store = MemoryStore.calls)
    (hfilter : setting.config.filterOf setting.root = .ok filter) (request : RunRequest)
    (w : World MemoryStore) (hready : Ready setting.stateDir home w.disk)
    (hapart : filter.Apart home w.disk) (hfree : ¬ setting.Barred home w)
    (huncancelled : w.isCancelled = false) :
    ∃ c w₁ report w' res, setting.openRun.run w = (.ok c, w₁) ∧
      (setting.perform request).run w = (.ok report, w') ∧
      setting.Performed home filter request w c w₁ report w' res ∧
      setting.Finished home filter (filter.inspect w₁.disk) c
        (setting.detection filter w₁.disk c.manifest c.reference request) w₁ report.state ∧
      res.status ≠ .aborted ∧ (setting.Reliable →
        (setting.detection filter w₁.disk c.manifest c.reference request).skipped = [] →
        report.state.Clean) := by
  obtain ⟨c, w₁, hopen, hopened⟩ := runs_returns setting.openRun
    (runs_imp _ _ _ (openRun_opened setting w hready) (fun _ _ h => h) fun _ _ h => hfree h)
  obtain ⟨report, w', hrun, res, hperformed⟩ := runs_returns (setting.perform request)
    (perform_opened setting filter hstill hfilter request w w₁ c hready hapart hopen)
  have hready₁ := hready.of_same hopened.same
  have hroot : filter.root = setting.root := FileFilter.ofConfig_root _ _ _ hfilter
  have hseen : Seen setting.root home w₁.disk (filter.inspect w₁.disk) := by
    rw [← hroot]
    exact (hapart.of_same hopened.same).seen
  have hwork := detection_workable setting filter w₁.disk c.manifest c.reference request
  have hrun' := hrun
  rw [perform_run setting hfilter request hopen] at hrun'
  -- what is detected matters only in that a run can work through it
  generalize hfound : setting.detection filter w₁.disk c.manifest c.reference request = found
    at hwork hrun'
  have hends := execute_batches setting home filter hstill c found request.force w₁ hready₁
    (fun ending t => ending = .finished ∧ t.result.status = .completed ∧
      (setting.Reliable → t.core.missed = found.skipped.length)) (fun _ _ => False) (by
      intro plan s hbegun
      have hready' := hready₁.of_same hbegun.same
      have hlegible := hwork.legible (hseen.of_same hbegun.same)
      have huncancelled' : s.world.isCancelled = false := by
        rw [hbegun.world.2.2, hopened.rest.2.2.1]
        exact huncancelled
      apply runs_imp _ _ _ (runBatches_steady hcalm hstill hstore plan _ hready' hlegible
        ⟨Since.refl hready'.leaf, huncancelled', hbegun.status, hbegun.sound, fun _ => rfl⟩)
      · exact fun ending t ht => ⟨ht.2.same, ht.1, ht.2.status,
          fun hr => (ht.2.reliable hr).trans hbegun.missed⟩
      · exact fun _ _ h => h)
  have hall := (runs_ok _ _ _ hends hrun').2 res hperformed.outcome
  -- the batches are neither cancelled nor stopped
  rcases hall with ⟨_, ⟨hcancelled, _⟩ | ⟨_, _, _, _, h, _⟩⟩ |
    ⟨plan, t, ⟨_, hstatus, hmissed⟩, hcompleted, heq⟩
  · cases hcancelled
  · exact h.elim
  · have hdone : res.status ≠ .aborted := by
      rw [heq]
      apply IndexResult.finish_ended
      rw [hstatus]
      decide
    refine ⟨c, w₁, report, w', res, hopen, hrun, hperformed,
      hperformed.ended.resolve_left fun h => hdone h.1, hdone, fun hr hskipped => ?_⟩
    have hzero := hmissed hr
    rw [← hfound, hskipped] at hzero
    unfold Clean
    rw [hcompleted.counts.1, hcompleted.counts.2]
    exact (clean_iff t).mpr hzero

end RunSetting

theorem sample_calm (x : Extractor) (git : Disk → Git.View) : (sampleSetting x git).env.Calm :=
  ⟨fun _ => rfl, fun _ _ => rfl⟩

theorem sample_reliable (x : Extractor) (git : Disk → Git.View)
    (hx : ∀ path content, ∃ found, x.find path content = .ok found) :
    (sampleSetting x git).Reliable := by
  have htime : ¬ ({} : RunConfig).retry.callTimeout < Duration.zero := by decide
  exact ⟨⟨fun _ => [], rfl, fun _ _ => ⟨htime, rfl⟩⟩, hx⟩

end CodeIndex
