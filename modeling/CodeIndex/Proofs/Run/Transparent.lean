import CodeIndex.Proofs.Run.Refresh
import CodeIndex.Proofs.Run.Replay

/-!
Batching is transparent: runs that differ only in how their files are cut into batches, their texts
into requests, and in the fate of requests that are made again, end with the same store and the same
records.
-/

namespace CodeIndex

open StateDir

/-- How the work of a run is cut up, and what becomes of its requests. -/
structure Batching where
  filesPerBatch : Nat
  sizes : BatchConfig
  hardLimit : Nat
  reply : Nat → List String → EmbedReply

namespace RunSetting

open RunState

/-- A setting with its work cut up in another way. -/
def batched {σ : Type} (setting : RunSetting σ) (b : Batching) : RunSetting σ :=
  { setting with
    config := { setting.config with filesPerBatch := b.filesPerBatch, batch := b.sizes }
    env := { setting.env with maxBatch := b.hardLimit, reply := b.reply } }

section Execute

variable {σ : Type} (setting : RunSetting σ) (filter : FileFilter) (c : RunContext)
  (detection : Detection) (force : Bool)

def beginning (now : Timestamp) : Checkpoint :=
  { c.checkpoint with targetCommit := detection.head }.begin now

def planned (now : Timestamp) (d : Disk) : RunPlan where
  head := detection.head
  headMoved := detection.head.isSome &&
    detection.head != (beginning c detection now).lastIndexedCommit
  divergence := (setting.treeView filter d).headDivergence
  force := force

def initial (w w₁ : World σ) : RunState σ :=
  setting.startState w₁ c (beginning c detection w.clock) detection

/-- A run saves its checkpoint, goes through its batches, and comes to an end by how these end. -/
theorem execute_run {w w₁ : World σ}
    (hsave : (World.save setting.env setting.stateDir Checkpoint.fileName
      (beginning c detection w.clock).fileText).run w = (.ok (), w₁)) :
    let plan := setting.planned filter c detection force w.clock w₁.disk
    let batches := (runBatches setting plan detection.changes).run
      (setting.initial c detection w w₁)
    let ending := (setting.conclude plan batches.1).run batches.2
    (setting.execute filter c detection force).run w =
      (.ok ⟨ending.2, ending.1.map fun r =>
        { r with lastIndexedCommit := ending.2.checkpoint.lastIndexedCommit }⟩,
        ending.2.world) := by
  intro plan batches ending
  unfold execute
  rw [run_bind_ok get _ w w rfl]
  exact (run_bind_ok _ _ () w₁ hsave).trans rfl

end Execute

end RunSetting

namespace Contents

def concluded (c : Contents) (divergence : HeadDivergence) : Contents :=
  { c with
    manifest :=
      if c.missed = 0 then RunState.settled c.manifest divergence .zero else c.manifest }

end Contents

namespace RunState

variable {home : Location} {plan : RunPlan} {s t : RunState MemoryStore} {c : Contents}

theorem get?_settled_congr {m m' : Manifest} (h : ∀ p, m.get? p = m'.get? p)
    (divergence : HeadDivergence) (now now' : Duration) (p : String) :
    (settled m divergence now).get? p = (settled m' divergence now').get? p := by
  unfold settled
  cases divergence with
  | paths found =>
    dsimp only
    rw [Manifest.get?_settleDivergence, Manifest.get?_settleDivergence, h]
  | _ => exact h p

theorem Completed.concluded (h : Completed home plan s t) (hs : s.contents.Alike c) :
    t.contents.Alike (c.concluded plan.divergence) where
  store := h.world.1.trans hs.store
  records p := by
    have hclean : s.Clean ↔ c.missed = 0 := by
      rw [clean_iff, ← hs.missed]
      rfl
    show t.manifest.get? p = (if c.missed = 0 then _ else _ : Manifest).get? p
    rw [h.manifest]
    by_cases hc : s.Clean
    · rw [if_pos hc, if_pos (hclean.mp hc)]
      exact get?_settled_congr hs.records _ _ _ p
    · rw [if_neg hc, if_neg (mt hclean.mpr hc)]
      exact hs.records p
  missed := by
    refine Eq.trans ?_ hs.missed
    show t.result.filesFailed + t.unreadable = s.result.filesFailed + s.unreadable
    rw [h.counts.1, h.counts.2]

end RunState

namespace RunSetting

open RunState

/-- A run that is finished comes to the replay of its changes, or it gave up a file that was
ready. -/
theorem execute_replayed (setting : RunSetting MemoryStore) (hstill : setting.env.Still)
    (hstore : setting.store = MemoryStore.calls) {vector : String → Embedding}
    (hvector : setting.Answers vector) {home : Location} (filter : FileFilter) (c : RunContext)
    (detection : Detection) (force : Bool) {w w₁ w' : World MemoryStore}
    {report : RunReport MemoryStore} {res : IndexResult}
    (hready : Ready setting.stateDir home w₁.disk)
    (hsave : (World.save setting.env setting.stateDir Checkpoint.fileName
      (beginning c detection w.clock).fileText).run w = (.ok (), w₁))
    (hlegible : ∀ p, detection.changes.Writes p → Legible setting home w₁.disk p)
    (hrun : (setting.execute filter c detection force).run w = (.ok report, w'))
    (houtcome : report.outcome = .ok res) (hended : res.status ≠ .aborted) :
    let plan := setting.planned filter c detection force w.clock w₁.disk
    let prepared := setting.preparations plan detection.changes w₁.disk c.manifest
    report.state.world = w' ∧ res.errors = report.state.result.errors ∧
      (∀ failure ∈ res.errors, Excused setting prepared failure) ∧
      (GaveUp prepared report.state ∨ report.state.contents.Alike
        ((setting.replay plan vector detection.changes w₁.disk
          (setting.initial c detection w w₁).contents).concluded plan.divergence)) := by
  intro plan prepared
  have hbegin := setting.execute_run filter c detection force hsave
  have hbatches := runBatches_replayed (s := setting.initial c detection w w₁) plan hstill
    hstore hvector hready (BatchOptimizer.start_sound _ _) rfl detection.changes hlegible
  rcases hflow : (runBatches setting plan detection.changes).run
    (setting.initial c detection w w₁) with ⟨flow, t⟩
  rcases hend : (setting.conclude plan flow).run t with ⟨outcome, u⟩
  dsimp only at hbegin
  rw [hrun, hflow, hend] at hbegin
  cases hbegin
  -- the report has a result, which is that of the conclusion
  obtain ⟨res₀, rfl, rfl⟩ : ∃ res₀, outcome = .ok res₀ ∧
      { res₀ with lastIndexedCommit := u.checkpoint.lastIndexedCommit } = res := by
    cases outcome with
    | error e => cases houtcome
    | ok res₀ =>
      cases houtcome
      exact ⟨res₀, rfl, rfl⟩
  -- as it is not aborted, all batches were gone through
  obtain rfl := setting.conclude_finished plan flow t u res₀ hend hended
  have ht := runs_ok _ _ _ hbatches hflow rfl
  obtain ⟨hcompleted, hfinish⟩ := runs_ok _ _ _
    (complete_completed setting hstill plan t (hready.of_same ht.same)) hend
  have herrors : res₀.errors = t.result.errors := by
    rw [hfinish]
    unfold IndexResult.finish
    split <;> rfl
  refine ⟨rfl, ?_, ?_, ?_⟩
  · show res₀.errors = u.result.errors
    rw [herrors, hcompleted.counts.1]
  · intro failure hfailure
    exact ht.excused failure (herrors ▸ hfailure)
  · rcases ht.contents with hgave | halike
    · exact .inl (hgave.of_errors fun failure hfailure => by
        rw [hcompleted.counts.1]
        exact hfailure)
    · exact .inr (hcompleted.concluded halike)

def Persevered {σ : Type} (setting : RunSetting σ) (d : Disk) (res : IndexResult) : Prop :=
  ∀ failure ∈ res.errors, ∀ content modified,
    d.readFile (Path.join setting.root failure.path) = .ok (content, modified) →
    ∃ e, setting.extractor.find failure.path content = .error e

/-- A run went on to its end and gave up no request. -/
structure Sustained {σ : Type} (setting : RunSetting σ) (request : RunRequest) (w : World σ)
    (report : RunReport σ) (w' : World σ) : Prop where
  run : (setting.perform request).run w = (.ok report, w')
  ended : ∃ res, report.outcome = .ok res ∧ res.status ≠ .aborted ∧
    setting.Persevered w.disk res

theorem Persevered.kept {setting : RunSetting MemoryStore} {home : Location} {d d₁ : Disk}
    {res : IndexResult} (h : setting.Persevered d res) (hsame : Same home d d₁) {plan : RunPlan}
    {changes : ChangeSet} {m : Manifest} {s : RunState MemoryStore}
    (hlegible : ∀ p, changes.Writes p → Legible setting home d₁ p)
    (herrors : res.errors = s.result.errors) :
    ¬ GaveUp (setting.preparations plan changes d₁ m) s := by
  rintro ⟨failure, hfailure, file, hfile, hpath⟩
  obtain ⟨p, m', hwrites, hprepared⟩ := mem_preparations hfile
  obtain ⟨content, modified, hall⟩ := hlegible p hwrites
  have hitem := WorkItem.ofPath_path m' p
  have hread := hall d₁ (hsame.symm.trans hsame)
  rw [← hitem] at hread
  rw [prepare_read setting plan.force hread] at hprepared
  obtain ⟨found, hfound, rfl⟩ := prepareContent_ready hprepared.symm
  rw [hitem] at hfound hpath
  obtain ⟨e, he⟩ := h failure (herrors ▸ hfailure) content modified
    (hpath ▸ hall d hsame.symm)
  rw [← hpath, hfound] at he
  cases he

theorem perform_opens {σ : Type} (setting : RunSetting σ) (request : RunRequest) {w w' : World σ}
    {report : RunReport σ} (h : (setting.perform request).run w = (.ok report, w')) :
    ∃ c w₁, setting.openRun.run w = (.ok c, w₁) := by
  cases hopen : setting.openRun.run w with
  | mk outcome w₁ =>
    cases outcome with
    | ok c => exact ⟨c, w₁, rfl⟩
    | error e =>
      have hbarred : Runs (setting.perform request) w (fun _ _ => False) (fun _ _ => True) := by
        rw [perform_eq, runs_bind, Runs, hopen]
        exact trivial
      exact (runs_ok _ _ _ hbarred h).elim

section Perform

variable {filter : FileFilter} {home : Location}

/-- A run that is finished reads what it detected, saves its records, and comes to the replay of
its changes, or it gave up a file that was ready. -/
theorem perform_replayed (setting : RunSetting MemoryStore) (hstill : setting.env.Still)
    (hstore : setting.store = MemoryStore.calls)
    (hfilter : setting.config.filterOf setting.root = .ok filter) {vector : String → Embedding}
    (hvector : setting.Answers vector) (request : RunRequest) {w w₁ w₂ w' : World MemoryStore}
    {c : RunContext} {report : RunReport MemoryStore} {res : IndexResult}
    (hready : Ready setting.stateDir home w.disk) (hapart : filter.Apart home w.disk)
    (hclock : w.clock.Valid) (hopen : setting.openRun.run w = (.ok c, w₁)) :
    let detection := setting.detection filter w₁.disk c.manifest c.reference request
    (World.save setting.env setting.stateDir Checkpoint.fileName
      (beginning c detection w₁.clock).fileText).run w₁ = (.ok (), w₂) →
    (setting.perform request).run w = (.ok report, w') →
    report.outcome = .ok res → res.status ≠ .aborted →
    let plan := setting.planned filter c detection request.force w₁.clock w₂.disk
    let prepared := setting.preparations plan detection.changes w₂.disk c.manifest
    Same home w.disk w₂.disk ∧
      (∀ p, detection.changes.Writes p → Legible setting home w₂.disk p) ∧
      w'.loadManifest setting.stateDir = .ok report.state.manifest ∧
      report.state.world = w' ∧ res.errors = report.state.result.errors ∧
      (∀ failure ∈ res.errors, Excused setting prepared failure) ∧
      (GaveUp prepared report.state ∨ report.state.contents.Alike
        ((setting.replay plan vector detection.changes w₂.disk
          (setting.initial c detection w₁ w₂).contents).concluded plan.divergence)) := by
  intro detection hsave hrun houtcome hended plan prepared
  have hopened := runs_ok _ _ _ (openRun_opened setting w hready) hopen
  have hready₁ := hready.of_same hopened.same
  have hsaved := runs_ok _ _ _ (World.save_saved setting.env hstill Checkpoint.fileName _ w₁ hready₁
    (by decide)) hsave
  -- neither the beginning nor the save of the checkpoint touches the tree
  have hsame := hopened.same.trans hsaved.same
  have hroot : filter.root = setting.root := FileFilter.ofConfig_root _ _ _ hfilter
  have hseen : Seen setting.root home w₁.disk (filter.inspect w₁.disk) := by
    rw [← hroot]
    exact (hapart.of_same hopened.same).seen
  have hlegible := (detection_workable setting filter w₁.disk c.manifest c.reference
    request).legible (hseen.of_same hsaved.same)
  obtain ⟨res', hperformed⟩ := runs_ok _ _ _
    (perform_opened setting filter hstill hfilter request w w₁ c hready hapart hopen) hrun
  obtain rfl : res' = res := Except.ok.inj (hperformed.outcome.symm.trans houtcome)
  have hfinished := hperformed.ended.resolve_left fun h => hended h.1
  refine ⟨hsame, hlegible, hperformed.loaded setting hfinished hready hclock, ?_⟩
  rw [perform_run setting hfilter request hopen] at hrun
  exact execute_replayed setting hstill hstore hvector filter c detection request.force
    (hready.of_same hsame) hsave hlegible hrun houtcome hended

/-- In calm surroundings, with a provider and an extractor that never fail, every run that nothing
bars is sustained. -/
theorem perform_sustained (setting : RunSetting MemoryStore) (hcalm : setting.env.Calm)
    (hstill : setting.env.Still) (hstore : setting.store = MemoryStore.calls)
    (hfilter : setting.config.filterOf setting.root = .ok filter)
    (hreliable : setting.Reliable) (request : RunRequest) (w : World MemoryStore)
    (hready : Ready setting.stateDir home w.disk) (hapart : filter.Apart home w.disk)
    (hclock : w.clock.Valid) (hfree : ¬ setting.Barred home w) (hopen : w.isCancelled = false) :
    ∃ report w', setting.Sustained request w report w' := by
  obtain ⟨vector, hvector⟩ := hreliable.1
  obtain ⟨c, w₁, report, w', res, hopened, hrun, hperformed, -, hended, -⟩ :=
    perform_finished setting hcalm hstill hstore hfilter request w hready hapart hfree hopen
  obtain ⟨_, w₂, hsave, _⟩ := runs_returns _ (World.save_saved setting.env hstill
    Checkpoint.fileName (beginning c (setting.detection filter w₁.disk c.manifest c.reference
      request) w₁.clock).fileText w₁ (hready.of_same hperformed.opened.same) (by decide))
  obtain ⟨hsame, hlegible, _, _, _, hexcused, _⟩ := perform_replayed setting hstill hstore hfilter
    hvector.answers request hready hapart hclock hopened hsave hrun hperformed.outcome hended
  refine ⟨report, w', hrun, res, hperformed.outcome, hended, ?_⟩
  intro failure hfailure
  -- a file that fails was not ready, or the provider is not faithful
  rcases hexcused failure hfailure with ⟨e, hfailed⟩ | ⟨_, hnever⟩
  · obtain ⟨p, m, hwrites, hprepared⟩ := mem_preparations hfailed
    obtain ⟨content, modified, hall⟩ := hlegible p hwrites
    obtain ⟨found, hfound⟩ := hreliable.2 p content
    have hitem := WorkItem.ofPath_path m p
    rw [prepare_read setting _ (hitem.symm ▸ hall _ (hsame.symm.trans hsame))] at hprepared
    unfold prepareContent at hprepared
    rw [hitem, hfound] at hprepared
    cases hprepared
  · exact absurd hvector (hnever vector)

/-- **Batching is transparent.** Two runs begin alike and are asked for the same; the provider
answers each text by a fixed function of it. However their files are cut into batches and their
texts into requests, and whichever requests are late or refused and made again, the store is the
same in the end, and so are the records that are saved. -/
theorem batching_transparent (setting : RunSetting MemoryStore) (hstill : setting.env.Still)
    (hstore : setting.store = MemoryStore.calls)
    (hfilter : setting.config.filterOf setting.root = .ok filter) (vector : String → Embedding)
    (b b' : Batching) (hb : (setting.batched b).Answers vector)
    (hb' : (setting.batched b').Answers vector) (request : RunRequest)
    (w w₁ w₁' : World MemoryStore) (report report' : RunReport MemoryStore)
    (hready : Ready setting.stateDir home w.disk) (hapart : filter.Apart home w.disk)
    (hclock : w.clock.Valid) (h : (setting.batched b).Sustained request w report w₁)
    (h' : (setting.batched b').Sustained request w report' w₁') :
    w₁.store = w₁'.store ∧ ∃ m m', w₁.loadManifest setting.stateDir = .ok m ∧
      w₁'.loadManifest setting.stateDir = .ok m' ∧ ∀ p, m.get? p = m'.get? p := by
  -- until its first batch a run does the same in either setting
  obtain ⟨c, v, hopen⟩ := perform_opens _ request h.run
  have hopened := runs_ok _ _ _ (openRun_opened setting w hready) hopen
  obtain ⟨_, u, hsave, _⟩ := runs_returns _ (World.save_saved setting.env hstill
    Checkpoint.fileName (beginning c (setting.detection filter v.disk c.manifest c.reference
      request) v.clock).fileText v (hready.of_same hopened.same) (by decide))
  have hend (b : Batching) (hb : (setting.batched b).Answers vector)
      (report : RunReport MemoryStore) (w' : World MemoryStore)
      (h : (setting.batched b).Sustained request w report w') :
      let detection := setting.detection filter v.disk c.manifest c.reference request
      let plan := setting.planned filter c detection request.force v.clock u.disk
      w'.loadManifest setting.stateDir = .ok report.state.manifest ∧
        report.state.world = w' ∧ report.state.contents.Alike
          ((setting.replay plan vector detection.changes u.disk
            (setting.initial c detection v u).contents).concluded plan.divergence) := by
    intro detection plan
    obtain ⟨res, houtcome, hended, hpersevered⟩ := h.ended
    obtain ⟨hsame, hlegible, hload, hworld, herrors, -, hcontents⟩ :=
      perform_replayed (setting.batched b) ⟨hstill.request, hstill.store, hstill.write⟩ hstore
        hfilter hb request hready hapart hclock hopen hsave h.run houtcome hended
    exact ⟨hload, hworld,
      hcontents.resolve_left (hpersevered.kept hsame hlegible herrors)⟩
  obtain ⟨hload, hworld, halike⟩ := hend b hb report w₁ h
  obtain ⟨hload', hworld', halike'⟩ := hend b' hb' report' w₁' h'
  have hboth := halike.trans halike'.symm
  refine ⟨?_, _, _, hload, hload', hboth.records⟩
  rw [← hworld, ← hworld']
  exact hboth.store

end Perform

end RunSetting

def lengthVector (text : String) : Embedding := [UInt32.ofNat text.utf8ByteSize]

def wholeBatches : Batching where
  filesPerBatch := 16
  sizes := {}
  hardLimit := 8
  reply _ texts := ⟨.zero, some (.ok (texts.map lengthVector))⟩

def smallBatches : Batching where
  filesPerBatch := 1
  sizes := { initialSize := 1 }
  hardLimit := 1
  reply _ texts := ⟨.ofSecs 1, some (.ok (texts.map lengthVector))⟩

def pairDisk : Disk := sampleDisk [("a.py", "class A"), ("b.py", "class B")]

def pairWorld : World MemoryStore := sampleWorld pairDisk (sampleCheckpoint "old") .empty

def pairSetting : RunSetting MemoryStore := sampleSetting methodExtractor fun _ => .outside

/-- A full run over two files, in either of the two. -/
theorem batchings_agree : ∃ report report' w₁ w₁',
    (pairSetting.batched wholeBatches).Sustained (.repository .full) pairWorld report w₁ ∧
    (pairSetting.batched smallBatches).Sustained (.repository .full) pairWorld report' w₁' ∧
    w₁.store = w₁'.store ∧ ∃ m m', w₁.loadManifest pairSetting.stateDir = .ok m ∧
      w₁'.loadManifest pairSetting.stateDir = .ok m' ∧ ∀ p, m.get? p = m'.get? p := by
  have hempty : Ready "/w/.sift" sampleHome pairDisk := by
    apply sample_ready <;> decide
  obtain ⟨hready, hapart, hfree⟩ := sample_open methodExtractor (fun _ => .outside) pairDisk
    (sampleCheckpoint "old") .empty pairWorld rfl rfl hempty (Disk.linkless_of_all _ (by decide))
    (sampleCheckpoint_storable "old") Manifest.empty_storable
  have hstill := sample_still methodExtractor fun _ => Git.View.outside
  have hcalm := sample_calm methodExtractor fun _ => Git.View.outside
  have hsustained (b : Batching) (hb : (pairSetting.batched b).Faithful lengthVector) :
      ∃ report w', (pairSetting.batched b).Sustained (.repository .full) pairWorld report w' :=
    RunSetting.perform_sustained (pairSetting.batched b) ⟨hcalm.cancels, hcalm.store⟩
      ⟨hstill.request, hstill.store, hstill.write⟩ rfl sampleFilter_eq
      ⟨⟨lengthVector, hb⟩, fun _ content => ⟨[methodOf (Text.lossy content)], rfl⟩⟩ _ _ hready
      hapart sample_clock hfree rfl
  have hatonce : ¬ ({} : RunConfig).retry.callTimeout < Duration.zero := by decide
  have hintime : ¬ ({} : RunConfig).retry.callTimeout < Duration.ofSecs 1 := by decide
  have hwhole : (pairSetting.batched wholeBatches).Faithful lengthVector :=
    ⟨rfl, fun _ _ => ⟨hatonce, rfl⟩⟩
  have hsmall : (pairSetting.batched smallBatches).Faithful lengthVector :=
    ⟨rfl, fun _ _ => ⟨hintime, rfl⟩⟩
  obtain ⟨report, w₁, h⟩ := hsustained _ hwhole
  obtain ⟨report', w₁', h'⟩ := hsustained _ hsmall
  exact ⟨report, report', w₁, w₁', h, h', RunSetting.batching_transparent pairSetting hstill rfl
    sampleFilter_eq lengthVector _ _ hwhole.answers hsmall.answers _ pairWorld w₁ w₁' report report'
    hready hapart sample_clock h h'⟩

end CodeIndex
