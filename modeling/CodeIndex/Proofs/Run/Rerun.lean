import CodeIndex.Proofs.Run.Lineage
import CodeIndex.Proofs.Run.Resumed
import CodeIndex.Proofs.Run.Rewritten

/-!
Runs that are made again after the store stopped them, and runs that are not stopped.
-/

namespace CodeIndex

open StateDir

/-! ### What a run confirms -/

def RunRequest.candidates (t : TreeView) (m : Manifest) (reference : Option String) :
    RunRequest → Option ChangeSet
  | .repository .full => none
  | .repository (.auto target) => some (t.candidates m reference target)
  | .changeset changes => some changes

/-- What a run confirms in a tree can be found again once a part of it is done. -/
structure TreeView.Repeatable (t : TreeView) (m : Manifest) (reference : Option String)
    (request : RunRequest) (candidates : ChangeSet) : Prop where
  keyed : m.Keyed
  readable : ∀ p ∈ candidates.mentioned, t.look p ≠ .unreadable
  asked : request.candidates t m reference = some candidates
  unhidden : candidates.Unhidden m t.look
  tidy : (confirm m t.look candidates).changes.Tidy m
  source : ∀ target, request = .repository (.auto target) →
    (∀ found, t.gitCandidates reference target ≠ .ok (some found)) ∨
      ∃ p, (m.get? p).isSome ∧ ¬ (confirm m t.look candidates).changes.Removes p

theorem TreeView.Repeatable.again {t : TreeView} {m m' : Manifest} {reference : Option String}
    {request : RunRequest} {candidates : ChangeSet}
    (h : t.Repeatable m reference request candidates) (hkeyed : m'.Keyed) :
    ∃ candidates', request.candidates t m' reference = some candidates' ∧
      (m' = m → candidates' = candidates) ∧
      ((confirm m t.look candidates).changes.PartlyDone t.look m m' →
        candidates.Recurs candidates' m m') := by
  have hcandidates := h.asked
  rcases request with mode | changes
  · cases mode with
    | full => cases hcandidates
    | auto target =>
      cases hcandidates
      refine ⟨_, rfl, fun heq => by rw [heq], fun hpartly => ?_⟩
      apply t.candidates_recur reference target h.keyed hkeyed
      refine (h.source target rfl).imp_right fun ⟨p, hrecorded, hstays⟩ => ?_
      -- a record that is not to be removed is there before and after
      have hfull (n : Manifest) (hn : (n.get? p).isSome) : n.isEmpty = false := by
        rw [← Bool.not_eq_true, Manifest.isEmpty_iff]
        intro hnone
        rw [hnone] at hn
        cases hn
      exact ⟨hfull m hrecorded, hfull m' (hpartly.kept p hstays hrecorded)⟩
  · cases hcandidates
    exact ⟨_, rfl, fun _ => rfl, fun _ => .refl _ m m'⟩

namespace RunSetting

open RunState

variable {σ : Type} (setting : RunSetting σ)

/-- A setting in which no call to the store fails and nothing cancels a run. -/
def steadied : RunSetting σ :=
  { setting with
    env := { setting.env with
      atStore := fun _ _ => .proceed
      cancelsAt := fun _ => false } }

theorem steadied_calm : setting.steadied.env.Calm := ⟨fun _ => rfl, fun _ _ => rfl⟩

variable {setting}

theorem steadied_still (h : setting.env.Still) : setting.steadied.env.Still where
  request := h.request
  store call n f hproceed := by cases hproceed
  write := h.write

theorem Faithful.steadied {vector : String → Embedding} (h : setting.Faithful vector) :
    setting.steadied.Faithful vector :=
  ⟨h.permits, h.reply⟩

variable {filter : FileFilter} {d : Disk} {m : Manifest} {reference : Option String}
  {request : RunRequest} {candidates : ChangeSet}

theorem detection_confirms
    (h : request.candidates (setting.treeView filter d) m reference = some candidates) :
    (setting.detection filter d m reference request).changes =
        (confirm m (setting.treeView filter d).look candidates).changes ∧
      (setting.detection filter d m reference request).skipped =
        (confirm m (setting.treeView filter d).look candidates).skipped ∧
      (setting.detection filter d m reference request).head = (setting.treeView filter d).head := by
  rcases request with mode | changes
  · cases mode with
    | full => cases h
    | auto target =>
      cases h
      obtain ⟨source, hdetect⟩ := (setting.treeView filter d).detect_confirm m reference target
      show ((setting.treeView filter d).detect m reference target).changes = _ ∧
        ((setting.treeView filter d).detect m reference target).skipped = _ ∧
        ((setting.treeView filter d).detect m reference target).head = _
      rw [hdetect]
      exact ⟨rfl, rfl, rfl⟩
  · cases h
    exact ⟨rfl, rfl, rfl⟩

theorem detection_congr {d' : Disk} (h : setting.treeView filter d' = setting.treeView filter d) :
    setting.detection filter d' m reference request =
      setting.detection filter d m reference request := by
  rcases request with mode | changes
  · cases mode with
    | full => exact congrArg (fun t => t.detectAll m) h
    | auto target => exact congrArg (fun t => t.detect m reference target) h
  · have hlook : filter.inspect d' = filter.inspect d := congrArg TreeView.look h
    have hhead : setting.headOf d' = setting.headOf d := congrArg TreeView.head h
    unfold detection
    dsimp only
    rw [hlook, hhead]

end RunSetting

theorem Contents.concluded_store (c : Contents) (divergence : HeadDivergence) :
    (c.concluded divergence).store = c.store := rfl

theorem Contents.Alike.concluded {a b : Contents} (h : a.Alike b) (divergence : HeadDivergence) :
    (a.concluded divergence).Alike (b.concluded divergence) where
  store := h.store
  records p := by
    unfold Contents.concluded
    dsimp only
    rw [h.missed]
    split
    · exact RunState.get?_settled_congr h.records divergence .zero .zero p
    · exact h.records p
  missed := h.missed

namespace RunSetting

open RunState

variable {setting : RunSetting MemoryStore} {plan : RunPlan} {vector : String → Embedding}
  {changes : ChangeSet} {d d' : Disk} {c : Contents}

variable (plan) in
/-- The files of a run depend on what is read where it writes. -/
theorem reading_congr {m : Manifest} (hread : ∀ p, changes.Writes p →
      d'.readFile (Path.join setting.root p) = d.readFile (Path.join setting.root p)) :
    Shape.ofChanges plan (setting.hashOf d') changes m =
        Shape.ofChanges plan (setting.hashOf d) changes m ∧
      setting.preparations plan changes d' m = setting.preparations plan changes d m := by
  have hshape : Shape.ofChanges plan (setting.hashOf d') changes m =
      Shape.ofChanges plan (setting.hashOf d) changes m := by
    apply Shape.ofChanges_congr
    intro e he
    unfold RunSetting.hashOf
    rw [hread e.2 (.inr (.inr ⟨e, he, rfl⟩))]
  refine ⟨hshape, ?_⟩
  rw [preparations_eq hshape, preparations_eq rfl]
  apply List.map_congr_left
  intro p hp
  unfold preparedIn prepare
  rw [WorkItem.ofPath_path, hread p (writes_of_mem hp)]

theorem replay_congr (hread : ∀ p, changes.Writes p →
      d'.readFile (Path.join setting.root p) = d.readFile (Path.join setting.root p)) :
    setting.replay plan vector changes d' c = setting.replay plan vector changes d c := by
  obtain ⟨hshape, hprepared⟩ := reading_congr plan (m := c.manifest) hread
  rw [replay_eq hshape, replay_eq rfl, hprepared]

theorem leaves_congr {store : MemoryStore} {m : Manifest} (hread : ∀ p, changes.Writes p →
      d'.readFile (Path.join setting.root p) = d.readFile (Path.join setting.root p))
    (h : setting.Leaves plan vector changes d' c store m) :
    setting.Leaves plan vector changes d c store m := by
  obtain ⟨hshape, hprepared⟩ := reading_congr plan (m := c.manifest) hread
  unfold Leaves at h ⊢
  rw [hshape, hprepared] at h
  exact h

end RunSetting

def TreeView.planFor (t : TreeView) (reference : Option String) (force : Bool) : RunPlan where
  head := t.head
  headMoved := t.head.isSome && t.head != reference
  divergence := t.headDivergence
  force := force

namespace RunSetting

open RunState

/-- A run is begun in a tree: it has the lock, what is loaded, and what it finds can be read. -/
structure Placed {σ : Type} (setting : RunSetting σ) (home : Location) (filter : FileFilter)
    (w : World σ) (m : Manifest) (reference : Option String) : Prop where
  ready : Ready setting.stateDir home w.disk
  tree : filter.Detached home w.disk
  git : setting.Unmoved home w.disk
  clock : w.clock.Valid
  manifest : w.loadManifest setting.stateDir = .ok m
  checkpoint : ∃ previous, w.loadCheckpoint setting.stateDir = .ok previous ∧
    reference = previous.bind (·.lastIndexedCommit)

/-- What a run comes to that nothing stops. -/
def foreseen (setting : RunSetting MemoryStore) (vector : String → Embedding) (filter : FileFilter)
    (d : Disk) (m : Manifest) (reference : Option String) (request : RunRequest)
    (store : MemoryStore) : Contents :=
  let t := setting.treeView filter d
  let found := setting.detection filter d m reference request
  setting.replay (t.planFor reference request.force) vector found.changes d
    ⟨store, m, found.skipped.length⟩

theorem foreseen_eq {setting : RunSetting MemoryStore} {vector : String → Embedding}
    {filter : FileFilter} {d : Disk} {m : Manifest} {reference : Option String}
    {request : RunRequest} {found : Detection}
    (h : setting.detection filter d m reference request = found) (store : MemoryStore) :
    setting.foreseen vector filter d m reference request store =
      setting.replay ((setting.treeView filter d).planFor reference request.force) vector
        found.changes d ⟨store, m, found.skipped.length⟩ := by
  rw [← h]
  rfl

section Perform

variable {setting : RunSetting MemoryStore} {filter : FileFilter} {home : Location}
  {request : RunRequest} {vector : String → Embedding} {w w₁ w₂ w' : World MemoryStore}
  {m : Manifest} {reference : Option String} {c : RunContext} {detection : Detection}
  (h : setting.Placed home filter w m reference)

include h

theorem Placed.reference_eq (hopened : setting.Opened home w c w₁) : c.reference = reference := by
  obtain ⟨previous, hprevious, hlast⟩ := hopened.reference
  obtain ⟨previous', hprevious', hlast'⟩ := h.checkpoint
  rw [hlast, hlast', Except.ok.inj (hprevious.symm.trans hprevious')]

/-- What a run has before its first batch is made of the tree, the records and the commit. -/
theorem Placed.begins (hopened : setting.Opened home w c w₁)
    (hsaved : ∃ name text, World.Saved home name text w₁ w₂)
    (hdetection : detection =
      setting.detection filter w₁.disk c.manifest c.reference request) :
    c.manifest = m ∧ detection = setting.detection filter w.disk m reference request ∧
      setting.planned filter c detection request.force w₁.clock w₂.disk =
        (setting.treeView filter w.disk).planFor reference request.force ∧
      (setting.initial c detection w₁ w₂).contents =
        ⟨w.store, m, detection.skipped.length⟩ := by
  obtain ⟨name, text, hsaved⟩ := hsaved
  have hm : c.manifest = m := Except.ok.inj (hopened.manifest.symm.trans h.manifest)
  have hreference : c.reference = reference := h.reference_eq hopened
  have hview (d : Disk) (hsame : Same home w.disk d) :
      setting.treeView filter d = setting.treeView filter w.disk := h.git.treeView h.tree d hsame
  have hfound : detection = setting.detection filter w.disk m reference request := by
    rw [hdetection, hm, hreference]
    exact detection_congr (hview w₁.disk hopened.same)
  refine ⟨hm, hfound, ?_, ?_⟩
  · have hhead : detection.head = (setting.treeView filter w.disk).head := by
      rw [hfound]
      exact setting.detection_head filter w.disk m reference request
    unfold planned TreeView.planFor
    rw [hhead, hview w₂.disk (hopened.same.trans hsaved.same), ← hreference]
    rfl
  · have hstore : w₂.store = w.store := by
      obtain ⟨_, _, rfl⟩ := hsaved.rest
      exact hopened.rest.1
    unfold initial startState RunState.contents RunState.core
    dsimp only
    rw [hstore, hm, Nat.zero_add]

variable (hfilter : setting.config.filterOf setting.root = .ok filter)

include hfilter

/-- What is seen of the tree is what can be read of it, whatever a run writes. -/
theorem Placed.seen : Seen setting.root home w.disk (filter.inspect w.disk) := by
  have hroot : filter.root = setting.root := FileFilter.ofConfig_root _ _ _ hfilter
  rw [← hroot]
  exact h.tree.apart.seen

theorem Placed.reads {d : Disk} (hsame : Same home w.disk d) {changes : ChangeSet}
    (hwork : changes.Workable (filter.inspect w.disk)) (p : String) (hp : changes.Writes p) :
    d.readFile (Path.join setting.root p) = w.disk.readFile (Path.join setting.root p) := by
  obtain ⟨hash, hlook⟩ := hwork.present p hp
  obtain ⟨content, modified, _, hall⟩ := h.seen hfilter p hash hlook
  rw [hall d hsame, hall _ h.ready.same_refl]

theorem Placed.foreseen_congr {d : Disk} (hsame : Same home w.disk d) (n : Manifest)
    (store : MemoryStore) : setting.foreseen vector filter d n reference request store =
      setting.foreseen vector filter w.disk n reference request store := by
  have hview := h.git.treeView h.tree d hsame
  have hread := h.reads hfilter hsame
    (setting.detection_workable filter w.disk n reference request)
  unfold foreseen
  dsimp only
  rw [hview, detection_congr hview, replay_congr hread]

variable (hstill : setting.env.Still) (hstore : setting.store = MemoryStore.calls)
  (hfaithful : setting.Faithful vector)

include hstill hstore hfaithful

variable (request) in
/-- A run that nothing stops comes to the replay of what it finds. -/
theorem Placed.comes (hcalm : setting.env.Calm) (hfree : home ++ [World.lockName] ∉ w.held)
    (huncancelled : w.isCancelled = false) :
    ∃ report w', (setting.perform request).run w = (.ok report, w') ∧ report.IsFinished ∧
      ∃ m', w'.loadManifest setting.stateDir = .ok m' ∧
        let final := (setting.foreseen vector filter w.disk m reference request w.store).concluded
          (setting.treeView filter w.disk).headDivergence
        w'.store = final.store ∧ ∀ p, m'.get? p = final.manifest.get? p := by
  have hopens : ¬ setting.Barred home w := by
    obtain ⟨previous, hprevious, _⟩ := h.checkpoint
    rintro (hheld | ⟨e, he⟩ | ⟨e, he⟩)
    · exact hfree hheld
    · rw [hprevious] at he
      cases he
    · rw [h.manifest] at he
      cases he
  obtain ⟨c, w₁, report, w', res, hopen, hrun, hperformed, -, hended, -⟩ :=
    perform_finished setting hcalm hstill hstore hfilter request w h.ready h.tree.apart hopens
      huncancelled
  have hopened := hperformed.opened
  obtain ⟨_, w₂, hsave, hsaved⟩ := runs_returns _ (World.save_saved setting.env hstill
    Checkpoint.fileName (beginning c (setting.detection filter w₁.disk c.manifest c.reference
      request) w₁.clock).fileText w₁ (h.ready.of_same hopened.same) (by decide))
  obtain ⟨hsame, hlegible, hload, hworld, herrors, hexcused, hcontents⟩ :=
    perform_replayed setting hstill hstore hfilter hfaithful.answers request h.ready h.tree.apart
      h.clock hopen hsave hrun hperformed.outcome hended
  obtain ⟨hm, hfound, hplan, hinitial⟩ := h.begins hopened ⟨_, _, hsaved⟩ rfl
  -- the provider never fails, so that no file is given up that was ready
  have halike := hcontents.resolve_left (not_gaveUp hfaithful rfl fun failure hfailure =>
    hexcused failure (herrors ▸ hfailure))
  rw [hplan, hinitial, hfound] at halike
  rw [replay_congr (h.reads hfilter hsame
    (setting.detection_workable filter w.disk m reference request))] at halike
  refine ⟨report, w', hrun, ⟨res, hperformed.outcome, hended⟩, _, hload, ?_, halike.records⟩
  rw [← hworld]
  exact halike.store

/-- A run that is stopped leaves a part of what it finds done, for the next one to go on with. -/
theorem Placed.leaves {report : RunReport MemoryStore} {res : IndexResult}
    (hrun : (setting.perform request).run w = (.ok report, w'))
    (houtcome : report.outcome = .ok res) (haborted : res.status = .aborted)
    (hbatch : ∀ n, report.state.checkpoint.lastCompletedBatch = some n → n < Nat.pow 2 64) :
    let found := setting.detection filter w.disk m reference request
    ∃ m', setting.Leaves ((setting.treeView filter w.disk).planFor reference request.force) vector
        found.changes w.disk ⟨w.store, m, found.skipped.length⟩ w'.store m' ∧
      ∀ v : World MemoryStore, v.disk = w'.disk → v.clock.Valid →
        Same home w.disk v.disk ∧ setting.Placed home filter v m' reference := by
  obtain ⟨c, w₁, hopen⟩ := perform_opens setting request hrun
  have hopened := runs_ok _ _ _ (openRun_opened setting w h.ready) hopen
  have hready₁ := h.ready.of_same hopened.same
  rw [perform_run setting hfilter request hopen] at hrun
  generalize hdetection :
    setting.detection filter w₁.disk c.manifest c.reference request = detection at hrun
  obtain ⟨_, w₂, hsave, hsaved⟩ := runs_returns _ (World.save_saved setting.env hstill
    Checkpoint.fileName (beginning c detection w₁.clock).fileText w₁ hready₁ (by decide))
  obtain ⟨hm, hfound, hplan, hinitial⟩ := h.begins hopened ⟨_, _, hsaved⟩ hdetection.symm
  have hwork : detection.changes.Workable (filter.inspect w.disk) := by
    rw [hfound]
    exact setting.detection_workable filter w.disk m reference request
  have hsame := hopened.same.trans hsaved.same
  have hseen := h.seen hfilter
  obtain ⟨m', hleaves, hloads⟩ := execute_leaves hstill hstore hfaithful c detection request.force
    (h.ready.of_same hsame) hsave (hwork.legible (hseen.of_same hsame)) hrun houtcome haborted
  -- here it does not matter what the records say of removed paths
  obtain ⟨m'', hleft, hmanifest, hcheckpoint⟩ := runs_ok _ _ _
    (execute_reloaded hstill h.ready h.clock hopened detection request.force _ hwork.without
      (fun p hash hlook => hseen.of_same hopened.same p hash (ChangeSet.without_present hlook))
      fun p hp => ChangeSet.without_gone hp) hrun res houtcome haborted hbatch
  -- both say what the next run loads
  have hloaded : w'.loadManifest setting.stateDir = .ok m' := by
    apply hloads
    · obtain ⟨_, _, rfl⟩ := hsaved.rest
      exact hopened.rest.2.1 ▸ h.clock
    · exact World.loadManifest_storable w h.ready _ hopened.manifest
    · rw [World.loadManifest_eq w₂ (h.ready.of_same hsame),
        hsaved.others _ (by decide) (by decide), ← World.loadManifest_eq w₁ hready₁]
      exact (World.load_congr h.ready hready₁ hopened.kept).2.trans hopened.manifest
  rw [hplan, hinitial] at hleaves
  have hread := h.reads hfilter hsame hwork
  rw [hfound] at hleaves hread
  refine ⟨m', leaves_congr hread hleaves, fun v hdisk hclock => ?_⟩
  have hsame' : Same home w.disk v.disk := by
    rw [hdisk]
    exact hopened.same.trans hleft.same
  refine ⟨hsame', h.ready.of_same hsame', h.tree.of_same hsame', ?_, hclock, ?_, ?_⟩
  · intro d hd
    rw [h.git d (hsame'.trans hd), h.git v.disk hsame']
  · exact (World.loadManifest_congr w' v hdisk).trans hloaded
  · refine ⟨_, (World.loadCheckpoint_congr w' v hdisk).trans hcheckpoint, ?_⟩
    show reference = report.state.checkpoint.lastIndexedCommit
    rw [hleft.reference, h.reference_eq hopened]

end Perform

theorem steadied_foreseen (setting : RunSetting MemoryStore) (vector : String → Embedding)
    (filter : FileFilter) (d : Disk) (m : Manifest) (reference : Option String)
    (request : RunRequest) (store : MemoryStore) :
    setting.steadied.foreseen vector filter d m reference request store =
      setting.foreseen vector filter d m reference request store := by
  rcases request with mode | changes
  · cases mode <;> rfl
  · rfl

theorem Placed.steadied {setting : RunSetting MemoryStore} {home : Location} {filter : FileFilter}
    {w : World MemoryStore} {m : Manifest} {reference : Option String}
    (h : setting.Placed home filter w m reference) :
    setting.steadied.Placed home filter w m reference :=
  ⟨h.ready, h.tree, h.git, h.clock, h.manifest, h.checkpoint⟩

/-- What is asked for can be asked for again once a part of it is done: what a run confirms can be
found again, or all is indexed anew, and no file gives up an id that another one is given. -/
inductive Repeats (setting : RunSetting MemoryStore) (filter : FileFilter) (d : Disk)
    (m : Manifest) (reference : Option String) : RunRequest → Prop
  | found {request : RunRequest} {candidates : ChangeSet}
    (h : (setting.treeView filter d).Repeatable m reference request candidates) :
    Repeats setting filter d m reference request
  | anew (h : setting.GivesUpFreely ((setting.treeView filter d).planFor reference true)
      ((setting.treeView filter d).detectAll m).changes d m) :
    Repeats setting filter d m reference (.repository .full)

/-- What is found and done after a run that was stopped comes to what the run would have come
to. -/
theorem Repeats.alike {setting : RunSetting MemoryStore} {filter : FileFilter} {d : Disk}
    {m m' : Manifest} {reference : Option String} {request : RunRequest}
    {vector : String → Embedding} {s store : MemoryStore}
    (h : setting.Repeats filter d m reference request)
    (hreads : setting.ReadsAs d (setting.treeView filter d).look)
    (hleaves : setting.Leaves ((setting.treeView filter d).planFor reference request.force) vector
      (setting.detection filter d m reference request).changes d
      ⟨s, m, (setting.detection filter d m reference request).skipped.length⟩ store m') :
    (setting.foreseen vector filter d m' reference request store).Alike
      (setting.foreseen vector filter d m reference request s) := by
  unfold foreseen
  dsimp only
  cases h with
  | anew h => exact Leaves.anew rfl h hleaves
  | @found _ candidates h =>
    -- no path is skipped, in the first run and in the second one
    obtain ⟨hchanges, hskipped, _⟩ := detection_confirms h.asked
    have hnone : (setting.detection filter d m reference request).skipped = [] := by
      rw [hskipped]
      exact confirm_skips_nothing h.readable
    rw [hchanges, hnone] at hleaves ⊢
    obtain ⟨candidates', hasked', hunmoved, hrecurs⟩ := h.again (hleaves.keyed h.keyed)
    have hreadable' : ∀ p ∈ candidates'.mentioned,
        (setting.treeView filter d).look p ≠ .unreadable := by
      rcases hleaves.partlyDone hreads rfl h.tidy with heq | hpartly
      · rw [hunmoved heq]
        exact h.readable
      · exact (hrecurs hpartly).readable h.readable hpartly.mended
    obtain ⟨hchanges', hskipped', _⟩ := detection_confirms hasked'
    rw [hchanges', hskipped', confirm_skips_nothing hreadable']
    exact hleaves.replayed hreads rfl h.tidy h.readable h.unhidden rfl hrecurs hunmoved

/-- **A run that is made again.** A run is aborted, and the same is asked for again on a tree that
stayed as it was, with no faults. Where what is asked for can be asked for again, the second run
ends with the store and the records that a single run would have ended with. -/
theorem interrupted_rerun_agrees (setting : RunSetting MemoryStore) (hstill : setting.env.Still)
    (hstore : setting.store = MemoryStore.calls) (filter : FileFilter)
    (hfilter : setting.config.filterOf setting.root = .ok filter) (vector : String → Embedding)
    (hfaithful : setting.Faithful vector) (home : Location) (request : RunRequest)
    (m : Manifest) (reference : Option String) (w w' v : World MemoryStore)
    (report : RunReport MemoryStore) (res : IndexResult)
    (hplaced : setting.Placed home filter w m reference)
    (hrepeats : setting.Repeats filter w.disk m reference request)
    (hrun : (setting.perform request).run w = (.ok report, w'))
    (houtcome : report.outcome = .ok res) (haborted : res.status = .aborted)
    (hbatch : ∀ n, report.state.checkpoint.lastCompletedBatch = some n → n < Nat.pow 2 64)
    (hdisk : v.disk = w'.disk) (hstored : v.store = w'.store) (hclock : v.clock.Valid)
    (hopen : w.isCancelled = false ∧ home ++ [World.lockName] ∉ w.held)
    (hopen' : v.isCancelled = false ∧ home ++ [World.lockName] ∉ v.held) :
    ∃ single w₁ again v₁, (setting.steadied.perform request).run w = (.ok single, w₁) ∧
      single.IsFinished ∧ (setting.steadied.perform request).run v = (.ok again, v₁) ∧
      again.IsFinished ∧ v₁.store = w₁.store ∧
      ∃ m₁ m₂, w₁.loadManifest setting.stateDir = .ok m₁ ∧
        v₁.loadManifest setting.stateDir = .ok m₂ ∧ ∀ p, m₂.get? p = m₁.get? p := by
  have hstill' := steadied_still hstill
  have hfaithful' := hfaithful.steadied
  have hcalm := setting.steadied_calm
  obtain ⟨m', hleaves, hagain⟩ := hplaced.leaves hfilter hstill hstore hfaithful hrun houtcome
    haborted hbatch
  obtain ⟨hsame, hplaced'⟩ := hagain v hdisk hclock
  have hreads : setting.ReadsAs w.disk (setting.treeView filter w.disk).look :=
    fun p hash hlook => by
      obtain ⟨content, modified, hhash, hall⟩ := hplaced.seen hfilter p hash hlook
      exact ⟨content, modified, hhash, hall _ hplaced.ready.same_refl⟩
  -- both runs that are not stopped come to replays of what they find
  obtain ⟨single, w₁, hsingle, hfinished, m₁, hload₁, hstore₁, hrecords₁⟩ :=
    hplaced.steadied.comes request hfilter hstill' hstore hfaithful' hcalm hopen.2 hopen.1
  obtain ⟨again, v₁, hrerun, hfinished', m₂, hload₂, hstore₂, hrecords₂⟩ :=
    hplaced'.steadied.comes request hfilter hstill' hstore hfaithful' hcalm hopen'.2 hopen'.1
  have hview : setting.steadied.treeView filter v.disk = setting.treeView filter w.disk :=
    hplaced.git.treeView hplaced.tree v.disk hsame
  have hfinal := (hrepeats.alike hreads hleaves).concluded
    (setting.treeView filter w.disk).headDivergence
  rw [steadied_foreseen] at hstore₁ hrecords₁ hstore₂ hrecords₂
  rw [hplaced.foreseen_congr hfilter hsame, hview, hstored] at hstore₂ hrecords₂
  exact ⟨single, w₁, again, v₁, hsingle, hfinished, hrerun, hfinished',
    hstore₂.trans (hfinal.store.trans hstore₁.symm), m₁, m₂, hload₁, hload₂,
    fun p => (hrecords₂ p).trans ((hfinal.records p).trans (hrecords₁ p).symm)⟩

/-- A run is aborted and made again, and ends with the store of a single run. -/
def RunsAgain (setting : RunSetting MemoryStore) (request : RunRequest) (w : World MemoryStore) :
    Prop :=
  ∃ report w' res v single w₁ again v₁, (setting.perform request).run w = (.ok report, w') ∧
    report.outcome = .ok res ∧ res.status = .aborted ∧ v.disk = w'.disk ∧ v.store = w'.store ∧
    (setting.steadied.perform request).run w = (.ok single, w₁) ∧ single.IsFinished ∧
    (setting.steadied.perform request).run v = (.ok again, v₁) ∧ again.IsFinished ∧
    v₁.store = w₁.store

/-- A run with no file to prepare that is stopped has made all its edits, or saved no records. -/
theorem Leaves.unsaved {setting : RunSetting MemoryStore} {plan : RunPlan}
    {vector : String → Embedding} {changes : ChangeSet} {d : Disk} {c : Contents}
    {store : MemoryStore} {m : Manifest} (h : setting.Leaves plan vector changes d c store m)
    (hnone : setting.preparations plan changes d c.manifest = []) :
    m = c.manifest ∨ store = (setting.replay plan vector changes d c).store := by
  rcases h with ⟨_, _, _, _, hm⟩ | ⟨front, rest, made, left, hprepared, hedits, hstore, _⟩
  · exact .inl hm
  · rw [hnone] at hprepared
    obtain ⟨rfl, rfl⟩ := List.append_eq_nil_iff.mp hprepared.symm
    obtain ⟨rfl, rfl⟩ := List.append_eq_nil_iff.mp hedits.symm
    refine .inr ?_
    unfold replay
    dsimp only
    rw [hstore, hnone]
    rfl

end RunSetting

/-! ### Moves of which the second is cut off -/

section Displaced

open RunSetting

def displacedSetting : RunSetting MemoryStore :=
  { namedSetting with
    env := { namedSetting.env with
      atStore := fun call nth =>
        if call = .updatePath ∧ nth = 2 then .fail (.unavailable "down") else .proceed } }

def displacedDisk : Disk := sampleDisk [("b.py", "a"), ("d.py", "c")]

def displacedWorld (texts : List String) : World MemoryStore :=
  { sampleWorld displacedDisk (sampleCheckpoint "old") (namedManifest texts) with
    store := namedStore texts }

def displacedMoves : ChangeSet := { renamed := [("a.py", "b.py"), ("c.py", "d.py")] }

def displacedLocked (texts : List String) : World MemoryStore :=
  ((World.lock "/w/.sift").run (displacedWorld texts)).2

def displacedContext (texts : List String) : RunContext where
  checkpoint := .newRun "run" (some "old") none ⟨⟨2024, 1, 1⟩, 0, 0⟩
  manifest := namedManifest texts
  isResumed := false

def displacedRun (texts : List String) : RunM (World MemoryStore) (RunReport MemoryStore) :=
  displacedSetting.execute sampleFilter (displacedContext texts)
    ⟨displacedMoves, .supplied, none, []⟩ false

def displacedReplay (texts : List String) (store : MemoryStore) : MemoryStore :=
  let d := (displacedWorld texts).disk
  (displacedSetting.replay
    ((displacedSetting.treeView sampleFilter d).planFor (some "old") false)
    (fun _ => []) displacedMoves d ⟨store, namedManifest texts, 0⟩).store

variable {texts : List String}

/-- The run is aborted when `c.py` is to be moved. All moves from there clear a recorded `b.py`, and
what was moved to it is gone from `a.py`. -/
theorem displaced_ended (htexts : texts = ["a", "c"] ∨ texts = ["a", "b", "c"]) : ∃ report w',
    (displacedRun texts).run { displacedLocked texts with runsStarted := 1 } = (.ok report, w') ∧
    statusOf report = some .aborted ∧
    report.state.checkpoint.lastCompletedBatch = none ∧
    (w'.isCancelled = false ∧ w'.held = [] ∧ w'.clock = ⟨⟨2024, 1, 1⟩, 0, 0⟩) ∧
    w'.store.idsForPath "d.py" = [] ∧
    (displacedReplay texts w'.store).idsForPath "b.py" =
      if texts.contains "b" then [] else ["a"] := by
  rcases htexts with rfl | rfl
  · exact runs_returns _ (by decide +kernel)
  · exact runs_returns _ (by decide +kernel)

/-- All moves are confirmed, and nothing is left to be written behind them. -/
theorem displaced_confirmed (htexts : texts = ["a", "c"] ∨ texts = ["a", "b", "c"]) :
    (∀ d ∈ [(displacedWorld texts).disk, (displacedLocked texts).disk],
      confirm (namedManifest texts) (sampleFilter.inspect d) displacedMoves =
        ⟨displacedMoves, []⟩) ∧
    (∀ p ∈ displacedMoves.mentioned,
      sampleFilter.inspect (displacedWorld texts).disk p ≠ .unreadable) ∧
    displacedSetting.preparations
      ((displacedSetting.treeView sampleFilter (displacedWorld texts).disk).planFor (some "old")
        false) displacedMoves (displacedWorld texts).disk (namedManifest texts) = [] ∧
    (displacedReplay texts (namedStore texts)).idsForPath "b.py" = ["a"] ∧
    (displacedReplay texts (namedStore texts)).idsForPath "d.py" ≠ [] := by
  rcases htexts with rfl | rfl
  · decide +kernel
  · decide +kernel

theorem displaced_stateDir : displacedSetting.stateDir = "/w/.sift" :=
  sample_stateDir ⟨fun _ => true, fun _ _ => .ok []⟩ fun _ => .outside

theorem displaced_ready : Ready "/w/.sift" sampleHome displacedDisk := by
  apply sample_ready <;> decide

theorem displaced_linkless : displacedDisk.Linkless := Disk.linkless_of_all _ (by decide)

theorem displaced_placed (texts : List String) :
    displacedSetting.Placed sampleHome sampleFilter (displacedWorld texts)
      (namedManifest texts) (some "old") := by
  obtain ⟨hcheckpoint, hmanifest⟩ := World.load_holding (sampleCheckpoint "old")
    (namedManifest texts) (displacedWorld texts) displaced_ready
    (sampleCheckpoint_storable "old") (namedManifest_storable texts) rfl
  have hsame : Same sampleHome displacedDisk (displacedWorld texts).disk :=
    World.holding_same (sampleCheckpoint "old") (namedManifest texts) displaced_ready
  rw [← displaced_stateDir] at hcheckpoint hmanifest
  refine ⟨?_, (sample_detached _ displaced_linkless).of_same hsame, fun _ _ => rfl, sample_clock,
    hmanifest, _, hcheckpoint, rfl⟩
  rw [displaced_stateDir]
  exact displaced_ready.of_same hsame

theorem displaced_detection (htexts : texts = ["a", "c"] ∨ texts = ["a", "b", "c"]) (d : Disk)
    (hd : d ∈ [(displacedWorld texts).disk, (displacedLocked texts).disk]) :
    displacedSetting.detection sampleFilter d (namedManifest texts) (some "old")
      (.changeset displacedMoves) = ⟨displacedMoves, .supplied, none, []⟩ := by
  obtain ⟨hconfirmed, _⟩ := displaced_confirmed htexts
  show Detection.mk (confirm _ _ displacedMoves).changes _ _ (confirm _ _ displacedMoves).skipped = _
  rw [hconfirmed d hd]
  rfl

theorem displaced_aborted (htexts : texts = ["a", "c"] ∨ texts = ["a", "b", "c"]) :
    ∃ report w' res,
      (displacedSetting.perform (.changeset displacedMoves)).run (displacedWorld texts) =
        (.ok report, w') ∧ report.outcome = .ok res ∧ res.status = .aborted ∧
      report.state.checkpoint.lastCompletedBatch = none ∧
      (w'.isCancelled = false ∧ w'.held = [] ∧ w'.clock = ⟨⟨2024, 1, 1⟩, 0, 0⟩) ∧
      w'.store.idsForPath "d.py" = [] ∧
      (displacedReplay texts w'.store).idsForPath "b.py" =
        if texts.contains "b" then [] else ["a"] := by
  have hplaced := displaced_placed texts
  obtain ⟨report, w', hrun, hstatus, hrest⟩ := displaced_ended htexts
  obtain ⟨res, houtcome, hstatus⟩ := statusOf_some hstatus
  refine ⟨report, w', res, ?_, houtcome, hstatus, hrest⟩
  -- the run begins with what is on file
  obtain ⟨hcheckpoint, -⟩ := World.load_holding _ _ (displacedWorld texts) displaced_ready
    (sampleCheckpoint_storable "old") (namedManifest_storable texts) rfl
  rw [← displaced_stateDir] at hcheckpoint
  have hdetection := displaced_detection htexts (displacedLocked texts).disk
    (List.mem_cons_of_mem _ (List.mem_singleton_self _))
  have hlocked : ((World.lock displacedSetting.stateDir).run (displacedWorld texts)).2 =
      displacedLocked texts := by
    rw [displaced_stateDir]
    rfl
  rw [perform_anew displacedSetting sampleFilter_eq (.changeset displacedMoves) hplaced.ready
    List.not_mem_nil hcheckpoint hplaced.manifest rfl, hlocked, ← hrun]
  unfold displacedRun displacedContext
  rw [← hdetection]
  rfl

theorem displaced_still : displacedSetting.env.Still where
  request _ _ := rfl
  store call nth f h := by
    have hnever : (if call = .updatePath ∧ nth = 2 then StoreHook.fail (.unavailable "down")
        else .proceed) ≠ .alter f := by
      split <;> exact fun heq => by cases heq
    exact absurd h hnever
  write _ := rfl

theorem displaced_faithful : displacedSetting.Faithful fun _ => [] := by
  have htime : ¬ ({} : RunConfig).retry.callTimeout < Duration.zero := by decide
  exact ⟨rfl, fun _ _ => ⟨htime, rfl⟩⟩

theorem displaced_repeatable :
    (displacedSetting.treeView sampleFilter (displacedWorld ["a", "c"]).disk).Repeatable
      (namedManifest ["a", "c"]) (some "old") (.changeset displacedMoves) displacedMoves where
  keyed := namedManifest_keyed _
  readable := by decide +kernel
  asked := rfl
  unhidden := by
    unfold ChangeSet.Unhidden
    decide +kernel
  tidy := by
    obtain ⟨hconfirmed, -⟩ := displaced_confirmed (.inl rfl)
    show (confirm _ (sampleFilter.inspect _) displacedMoves).changes.Tidy _
    rw [hconfirmed _ List.mem_cons_self]
    constructor
    · decide +kernel
    · decide
    · decide
  source _ h := by cases h

theorem cut_placed : cutSetting.Placed sampleHome sampleFilter cutWorld .empty (some "old") := by
  obtain ⟨hcheckpoint, hmanifest, hsame⟩ := cut_open
  refine ⟨?_, (sample_detached _ cut_linkless).of_same hsame, fun _ _ => rfl, sample_clock,
    hmanifest, _, hcheckpoint, rfl⟩
  rw [cut_stateDir]
  exact cut_ready.of_same hsame

/-- Moves of which the second was cut off are made again, and so is a run over everything that was
cancelled in between; both come to what one run would have come to. -/
theorem displaced_agrees :
    displacedSetting.RunsAgain (.changeset displacedMoves) (displacedWorld ["a", "c"]) ∧
      cutSetting.RunsAgain (.repository .full) cutWorld := by
  constructor
  · obtain ⟨report, w', res, hrun, houtcome, haborted, hbatch, ⟨hcalm, hheld, hclock⟩, -⟩ :=
      displaced_aborted (.inl (rfl : ["a", "c"] = ["a", "c"]))
    have hopen : w'.isCancelled = false ∧ sampleHome ++ [World.lockName] ∉ w'.held := by
      rw [hheld]
      exact ⟨hcalm, List.not_mem_nil⟩
    obtain ⟨single, w₁, again, v₁, hsingle, hfinished, hagain, hfinished', hstore, -⟩ :=
      interrupted_rerun_agrees displacedSetting displaced_still rfl sampleFilter sampleFilter_eq
        (fun _ => []) displaced_faithful sampleHome (.changeset displacedMoves)
        (namedManifest ["a", "c"]) (some "old") (displacedWorld ["a", "c"]) w' w' report res
        (displaced_placed _) (.found displaced_repeatable) hrun houtcome haborted
        (fun n hn => by rw [hbatch] at hn; cases hn) rfl rfl (hclock ▸ sample_clock)
        ⟨rfl, List.not_mem_nil⟩ hopen
    exact ⟨report, w', res, w', single, w₁, again, v₁, hrun, houtcome, haborted, rfl, rfl, hsingle,
      hfinished, hagain, hfinished', hstore⟩
  · obtain ⟨hcheckpoint, hmanifest, hsame⟩ := cut_open
    obtain ⟨vector, hfaithful⟩ := cut_cancelling.faithful
    obtain ⟨report, w', res, _, _, hrun, houtcome, haborted, _, _, _, _, _, hnew⟩ :=
      cut_run cutWorld .empty hsame sample_clock rfl cut_free hmanifest fun p hp => by
        rw [Manifest.get?_empty] at hp
        cases hp
    obtain ⟨hbatch, _⟩ := hnew hcheckpoint
    -- the next run is in a process of its own
    let v : World MemoryStore := { cutWorld with disk := w'.disk, store := w'.store }
    obtain ⟨single, w₁, again, v₁, hsingle, hfinished, hagain, hfinished', hstore, -⟩ :=
      interrupted_rerun_agrees cutSetting cut_cancelling.still rfl sampleFilter cut_filter vector
        hfaithful sampleHome (.repository .full) .empty (some "old") cutWorld w' v report res
        cut_placed (.anew (givesUpFreely_empty _)) hrun houtcome haborted
        (fun n hn => by rw [hbatch] at hn; cases hn; decide) rfl rfl sample_clock
        ⟨rfl, List.not_mem_nil⟩ ⟨rfl, List.not_mem_nil⟩
    exact ⟨report, w', res, v, single, w₁, again, v₁, hrun, houtcome, haborted, rfl, rfl, hsingle,
      hfinished, hagain, hfinished', hstore⟩

/-- The run is made again, and goes by the records as they were. -/
theorem displaced_rerun (htexts : texts = ["a", "c"] ∨ texts = ["a", "b", "c"]) :
    ∃ report w' res single w₁ again v₁,
      (displacedSetting.perform (.changeset displacedMoves)).run (displacedWorld texts) =
        (.ok report, w') ∧ report.outcome = .ok res ∧ res.status = .aborted ∧
      (displacedSetting.steadied.perform (.changeset displacedMoves)).run
        (displacedWorld texts) = (.ok single, w₁) ∧ single.IsFinished ∧
      (displacedSetting.steadied.perform (.changeset displacedMoves)).run w' =
        (.ok again, v₁) ∧ again.IsFinished ∧
      w₁.store.idsForPath "b.py" = ["a"] ∧
      v₁.store.idsForPath "b.py" = if texts.contains "b" then [] else ["a"] := by
  have hplaced := displaced_placed texts
  obtain ⟨report, w', res, hrun, houtcome, haborted, hbatch, ⟨hcalm, hheld, hclock⟩, hleft, hagain⟩
    := displaced_aborted htexts
  obtain ⟨_, _, hprepared, hfirst, hmoved⟩ := displaced_confirmed htexts
  have hfound := displaced_detection htexts _ List.mem_cons_self
  obtain ⟨m', hleaves, hplaces⟩ := hplaced.leaves sampleFilter_eq displaced_still rfl
    displaced_faithful hrun houtcome haborted fun n hn => by rw [hbatch] at hn; cases hn
  obtain ⟨hsame, hplaced'⟩ := hplaces w' rfl (hclock ▸ sample_clock)
  -- the run was stopped before its records were saved
  have hkept : m' = namedManifest texts := by
    rw [hfound] at hleaves
    refine (hleaves.unsaved hprepared).resolve_right fun hstore => hmoved ?_
    exact (congrArg (·.idsForPath "d.py") hstore).symm.trans hleft
  rw [hkept] at hplaced'
  have hfree : sampleHome ++ [World.lockName] ∉ w'.held := by
    rw [hheld]
    exact List.not_mem_nil
  obtain ⟨single, w₁, hsingle, hfinished, _, _, hstore₁, _⟩ :=
    hplaced.steadied.comes (.changeset displacedMoves) sampleFilter_eq
      (steadied_still displaced_still) rfl displaced_faithful.steadied
      displacedSetting.steadied_calm List.not_mem_nil rfl
  obtain ⟨again, v₁, hrerun, hfinished', _, _, hstore₂, _⟩ :=
    hplaced'.steadied.comes (.changeset displacedMoves) sampleFilter_eq
      (steadied_still displaced_still) rfl displaced_faithful.steadied
      displacedSetting.steadied_calm hfree hcalm
  have hforeseen (store : MemoryStore) : (displacedSetting.foreseen (fun _ => []) sampleFilter
      (displacedWorld texts).disk (namedManifest texts) (some "old") (.changeset displacedMoves)
      store).store = displacedReplay texts store :=
    congrArg (·.store) (foreseen_eq hfound store)
  rw [steadied_foreseen] at hstore₁ hstore₂
  rw [hplaced.foreseen_congr sampleFilter_eq hsame] at hstore₂
  refine ⟨report, w', res, single, w₁, again, v₁, hrun, houtcome, haborted, hsingle, hfinished,
    hrerun, hfinished', ?_, ?_⟩
  · rw [hstore₁, Contents.concluded_store, hforeseen]
    exact hfirst
  · rw [hstore₂, Contents.concluded_store, hforeseen]
    exact hagain

/-- **Entries that are lost.** Two files are moved, the first to a path that is recorded, and the
store fails at the second move. The run is made again, with no faults and on the same tree, and
removes the entries that were moved already, which a single run has in the store. -/
theorem displaced_lost : (displacedWorld ["a", "b", "c"]).store.Synced
      (namedManifest ["a", "b", "c"]) ∧
    (displacedWorld ["a", "b", "c"]).loadManifest displacedSetting.stateDir =
      .ok (namedManifest ["a", "b", "c"]) ∧
    ∃ report w' res single w₁ again v₁,
      (displacedSetting.perform (.changeset displacedMoves)).run (displacedWorld ["a", "b", "c"]) =
        (.ok report, w') ∧ report.outcome = .ok res ∧ res.status = .aborted ∧
      (displacedSetting.steadied.perform (.changeset displacedMoves)).run
        (displacedWorld ["a", "b", "c"]) = (.ok single, w₁) ∧ single.IsFinished ∧
      (displacedSetting.steadied.perform (.changeset displacedMoves)).run w' =
        (.ok again, v₁) ∧ again.IsFinished ∧
      w₁.store.idsForPath "b.py" = ["a"] ∧ v₁.store.idsForPath "b.py" = [] :=
  ⟨named_synced (by decide), (displaced_placed _).manifest, displaced_rerun (.inr rfl)⟩

end Displaced

end CodeIndex
