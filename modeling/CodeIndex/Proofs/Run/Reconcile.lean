import CodeIndex.Proofs.Run.Execute
import CodeIndex.Proofs.Scan.Walk

/-!
Runs outside version control. Such a run compares every file of its walk and every recorded path
with the tree, and without a failed file it leaves the records as the tree has them: the next run
finds nothing to do.
-/

namespace CodeIndex

open StateDir

namespace TreeView

variable (t : TreeView) (m : Manifest)

/-- The recorded hash of a path once a scan is worked through: a file that is there is recorded if
the walk found it or it was recorded, a file that is gone is not, and a path that cannot be read
keeps its record. -/
def reconciled (p : String) : Option ContentHash :=
  match t.look p with
  | .present hash => if p ∈ t.files ∨ (m.get? p).isSome then some hash else none
  | .unreadable => m.hashAt p
  | .missing | .excluded => none

theorem candidates_scan (hhead : t.head = none) (reference : Option String)
    (target : DiffTarget) : t.candidates m reference target = t.scanCandidates m := by
  unfold candidates
  rw [hhead, Option.isNone_none, Bool.or_true, if_pos rfl]

theorem scan_reconciles (m' : Manifest)
    (hwork : Reworked t.look m m' (confirm m t.look (t.scanCandidates m)).changes.Writes
      (confirm m t.look (t.scanCandidates m)).changes.Removes
      fun p => p ∈ (confirm m t.look (t.scanCandidates m)).changes.mentioned) (p : String) :
    m'.hashAt p = t.reconciled m p := by
  have hcovers := t.scanCandidates_covers m p
  by_cases hin : p ∈ (confirm m t.look (t.scanCandidates m)).changes.mentioned
  · rcases (ChangeSet.mentioned_iff _ p).mp hin with hwrites | hremoves
    · obtain ⟨hash, hlook, hhash⟩ := hwork.kept p hwrites
      have hcovered := hcovers.mp (confirm_mentions m t.look _ p hin)
      rw [hhash, reconciled, hlook]
      exact (if_pos hcovered).symm
    · obtain ⟨_, hlook⟩ := (compareRecord_deleted _ _).mp (t.scan_removes m p hremoves)
      rw [hwork.dropped p hremoves, reconciled]
      rcases hlook with hlook | hlook <;> rw [hlook]
  · rw [hwork.rest p hin, reconciled]
    by_cases hcovered : p ∈ t.files ∨ (m.get? p).isSome
    · rcases confirm_covers m t.look _ p (hcovers.mpr hcovered) with hsame | hskipped | hmentioned
      · rcases (compareRecord_same _ _).mp hsame with ⟨r, hash, hr, hlook, hhash⟩ | ⟨hr, hlook⟩
        · rw [hlook, Manifest.hashAt, hr, ← hhash]
          exact (if_pos (hr ▸ hcovered)).symm
        · rcases hlook with hlook | hlook <;> rw [hlook] <;> exact (m.hashAt_none p).mpr hr
      · rw [((t.scan_skipped m p).mp hskipped).2]
      · exact absurd hmentioned hin
    · -- a path that is neither found nor recorded stays without a record
      have hnone : m.hashAt p = none := by
        rw [Manifest.hashAt_none, ← Option.not_isSome_iff_eq_none]
        exact fun h => hcovered (.inr h)
      cases t.look p with
      | present hash => rw [hnone]; exact (if_neg hcovered).symm
      | missing => exact hnone
      | excluded => exact hnone
      | unreadable => rfl

/-- Where the paths that a scan looks at can be read, the recorded paths are those that are
there. -/
theorem reconciled_iff (p : String) (hash : ContentHash)
    (hreadable : p ∈ t.files ∨ (m.get? p).isSome → t.look p ≠ .unreadable) :
    t.reconciled m p = some hash ↔
      t.look p = .present hash ∧ (p ∈ t.files ∨ (m.get? p).isSome) := by
  unfold reconciled
  cases hlook : t.look p with
  | present found => simp [and_comm]
  | missing => simp
  | excluded => simp
  | unreadable =>
    have hnone : m.hashAt p = none := by
      rw [Manifest.hashAt_none, ← Option.not_isSome_iff_eq_none]
      exact fun h => hreadable (.inr h) hlook
    simp [hnone]

theorem scan_idle (m' : Manifest) (hm : ∀ p, m'.hashAt p = t.reconciled m p) :
    (confirm m' t.look (t.scanCandidates m')).changes.isEmpty = true := by
  apply confirm_idle m' t.look _ (t.scan_renames m')
  intro p hp
  have hp := (t.mem_scanPaths m' p).mp hp
  have hhash := hm p
  unfold reconciled at hhash
  have hgone (h : m'.hashAt p = none) : m'.get? p = none := (m'.hashAt_none p).mp h
  cases hlook : t.look p with
  | unreadable => exact .inr rfl
  | missing =>
    rw [hlook] at hhash
    rw [hgone hhash]
    exact .inl rfl
  | excluded =>
    rw [hlook] at hhash
    rw [hgone hhash]
    exact .inl rfl
  | present hash =>
    rw [hlook] at hhash
    dsimp only at hhash
    split at hhash
    · obtain ⟨r, hr, hrhash⟩ := Option.map_eq_some_iff.mp hhash
      rw [hr]
      exact .inl (if_pos hrhash)
    · -- a recorded path would have a hash, and the walk did not find this one
      rename_i hcovered
      rcases hp with hfile | hrecorded
      · exact absurd (.inl hfile) hcovered
      · rw [hgone hhash] at hrecorded
        cases hrecorded

end TreeView

namespace FileFilter

variable {f : FileFilter} {home : Location} {d d' : Disk}

/-- What an index sees of a tree does not depend on the files that its runs write. -/
structure Detached (f : FileFilter) (home : Location) (d : Disk) : Prop where
  apart : f.Apart home d
  walk : ∀ d', Same home d d' → f.scan d' = f.scan d

theorem Detached.of_same (h : f.Detached home d) (hsame : Same home d d') : f.Detached home d' where
  apart := h.apart.of_same hsame
  walk d'' hsame' := by rw [h.walk d'' (hsame.trans hsame'), h.walk d' hsame]

/-- What runs write does not change how records are reconciled. -/
theorem Detached.reconciled (h : f.Detached home d) (hsame : Same home d d') (git git' : Git.View)
    (m : Manifest) (p : String) :
    (f.treeView d' git').reconciled m p = (f.treeView d git).reconciled m p := by
  have hlook : (f.treeView d' git').look p = (f.treeView d git).look p := h.apart.inspect hsame p
  have hfiles : (f.treeView d' git').files = (f.treeView d git).files := h.walk d' hsame
  unfold TreeView.reconciled
  rw [hlook, hfiles]

/-- A tree without links is detached from the state directory. -/
theorem detached_of_linkless (hlinks : d.Linkless) (hnamed : f.Named)
    (hhome : f.config.stateDir ∈ home) (hroot : f.config.stateDir ∉ Path.pieces f.root) :
    f.Detached home d where
  apart := apart_of_linkless hlinks hhome hroot hnamed.dot hnamed.up
  walk d' hsame := by
    refine f.scan_passed hsame hlinks ⟨?_, ?_⟩ hnamed hroot
    · intro y hy
      obtain ⟨name, _, rfl⟩ := List.mem_map.mp hy
      rw [List.dropLast_concat]
      exact hhome
    · intro z name hz
      obtain ⟨name', hname', heq⟩ := List.mem_map.mp hz
      have hnames : ∀ name ∈ names, name ∉ DirectoryRules.fileNames := by decide
      rw [← List.singleton_inj.mp (List.append_inj' heq rfl).2]
      exact hnames name' hname'

/-- The files of a tree that a scan looks at can be read: those of the walk and those that are
recorded. -/
def Readable (f : FileFilter) (d : Disk) (m : Manifest) : Prop :=
  ∀ p, p ∈ f.scan d ∨ (m.get? p).isSome → f.inspect d p ≠ .unreadable

theorem Readable.of_same {m : Manifest} (h : f.Readable d m) (htree : f.Detached home d)
    (hsame : Same home d d') : f.Readable d' m := by
  intro p hp
  rw [htree.walk d' hsame] at hp
  rw [htree.apart.inspect hsame]
  exact h p hp

/-- The records `m'`, which were `m`, are those of the tree. -/
structure Reconciled (f : FileFilter) (d : Disk) (m m' : Manifest) : Prop where
  recorded : ∀ p, (m'.get? p).isSome ↔
    (f.inspect d p).isPresent = true ∧ (p ∈ f.scan d ∨ (m.get? p).isSome)
  hashed : ∀ p r, m'.get? p = some r → ∃ content modified,
    d.stat (Path.join f.root p) = .ok (.file content modified) ∧
      r.contentHash = Digest.contentHash content

theorem Reconciled.readable {m m' : Manifest} (h : f.Reconciled d m m')
    (hreadable : f.Readable d m) : f.Readable d m' := by
  rintro p (hfile | hrecorded)
  · exact hreadable p (.inl hfile)
  · exact hreadable p ((h.recorded p).mp hrecorded).2

/-- In a readable tree, records that are reconciled are those of the tree. -/
theorem reconciled_of_hashes {m m' : Manifest} {git : Git.View} (hreadable : f.Readable d m)
    (hm : ∀ p, m'.hashAt p = (f.treeView d git).reconciled m p) : f.Reconciled d m m' := by
  have hhash (p : String) (hash : ContentHash) : m'.hashAt p = some hash ↔
      f.inspect d p = .present hash ∧ (p ∈ f.scan d ∨ (m.get? p).isSome) := by
    rw [hm]
    exact (f.treeView d git).reconciled_iff m p hash (hreadable p)
  refine ⟨fun p => ?_, fun p r hr => ?_⟩
  · have hsome : (m'.get? p).isSome ↔ ∃ hash, m'.hashAt p = some hash := by
      rw [← Option.isSome_iff_exists, Manifest.hashAt, Option.isSome_map]
    rw [hsome, FileState.isPresent_iff, ← exists_and_right]
    exact exists_congr (hhash p)
  · have hp : m'.hashAt p = some r.contentHash := by rw [Manifest.hashAt, hr, Option.map_some]
    obtain ⟨_, content, modified, hstat, _, _, hcontent⟩ :=
      (inspect_present p _).mp ((hhash p _).mp hp).1
    exact ⟨content, modified, hstat, hcontent.symm⟩

end FileFilter

namespace RunSetting

open RunState FileFilter

variable {σ : Type} (setting : RunSetting σ) (home : Location) (filter : FileFilter)

/-- The root is outside version control. -/
def Outside : Prop := ∀ d, (setting.env.git d).isWorkTree = false

variable {setting} in
theorem Outside.head (houtside : setting.Outside) (d : Disk) :
    (setting.treeView filter d).head = none := by
  show (if (setting.env.git d).isWorkTree then (setting.env.git d).head else none) = none
  rw [houtside d]
  rfl

variable {setting} in
theorem Outside.headDivergence (houtside : setting.Outside) (d : Disk) :
    (setting.treeView filter d).headDivergence = .noHistory := by
  unfold TreeView.headDivergence
  rw [houtside.head]
  rfl

variable {setting} in
theorem Outside.detection (houtside : setting.Outside) (d : Disk) (m : Manifest)
    (reference : Option String) (target : DiffTarget) :
    ∃ source, setting.detection filter d m reference (.repository (.auto target)) =
      ⟨(confirm m (setting.treeView filter d).look
          ((setting.treeView filter d).scanCandidates m)).changes,
        source, none,
        (confirm m (setting.treeView filter d).look
          ((setting.treeView filter d).scanCandidates m)).skipped⟩ := by
  obtain ⟨source, hdetect⟩ := (setting.treeView filter d).detect_confirm m reference target
  rw [houtside.head, TreeView.candidates_scan _ _ (houtside.head filter d)] at hdetect
  exact ⟨source, hdetect⟩

/-- What a run comes to that has nothing to do: from the world `w` to the world `w'`, with the
records `m`. -/
structure Resting (target : DiffTarget) (w : World σ) (m : Manifest) (c : RunContext)
    (w₁ : World σ) (report : RunReport σ) (w' : World σ) (res : IndexResult) : Prop where
  opened : setting.openRun.run w = (.ok c, w₁)
  run : (setting.perform (.repository (.auto target))).run w = (.ok report, w')
  outcome : report.outcome = .ok res
  status : res.status = .completed
  detected : (setting.detection filter w₁.disk c.manifest c.reference
    (.repository (.auto target))).changes.isEmpty = true
  counts : res.batches = 0 ∧ res.embeddingCalls = 0
  failed : res.filesFailed = 0
  numbered : ∀ n, report.state.checkpoint.lastCompletedBatch = some n → n < Nat.pow 2 64
  calls : w'.requests = w.requests ∧ w'.storeCalls = w.storeCalls
  store : w'.store = w.store
  manifest : w'.loadManifest setting.stateDir = .ok m

variable {home filter}

/-- A run that finds nothing to do comes to rest, if it finds the flags settled as well. -/
theorem idle_rests (hstill : setting.env.Still)
    (hfilter : setting.config.filterOf setting.root = .ok filter) (target : DiffTarget)
    (w : World σ) (m : Manifest) (hready : Ready setting.stateDir home w.disk)
    (hapart : filter.Apart home w.disk) (hclock : w.clock.Valid) (hcalm : w.isCancelled = false)
    (hfree : ¬ setting.Barred home w) (hload : w.loadManifest setting.stateDir = .ok m)
    (hidle : ∀ c w₁, setting.Opened home w c w₁ → c.manifest = m →
      (setting.detection filter w₁.disk c.manifest c.reference
        (.repository (.auto target))).changes.isEmpty = true ∧
      (setting.detection filter w₁.disk c.manifest c.reference
        (.repository (.auto target))).skipped = [])
    (hsettled : ∀ d now, Same home w.disk d →
      settled m (setting.treeView filter d).headDivergence now = m) :
    ∃ c w₁ report w' res, setting.Resting filter target w m c w₁ report w' res := by
  have hmanifest (c : RunContext) (w₁ : World σ) (hopened : setting.Opened home w c w₁) :
      c.manifest = m :=
    Except.ok.inj (hopened.manifest.symm.trans hload)
  obtain ⟨c, w₁, report, w', res, hopen, hrun, hperformed, hfinished, _⟩ :=
    perform_idle setting filter hstill hfilter (.repository (.auto target)) w hready hapart
      hfree hcalm fun c w₁ hopened => hidle c w₁ hopened (hmanifest c w₁ hopened)
  have hopened := hperformed.opened
  obtain ⟨hnone, hskipped⟩ := hidle c w₁ hopened (hmanifest c w₁ hopened)
  have hcalm₁ : w₁.isCancelled = false := hopened.rest.2.2.1.trans hcalm
  -- nothing was detected, so that the run has left all as it was
  have hrest := hfinished.idle hnone hskipped hcalm₁
  obtain ⟨hstore, _, _, hcalls, hrequests⟩ := hopened.rest
  refine ⟨c, w₁, report, w', res, hopen, hrun, hperformed.outcome, hperformed.idle hnone hcalm₁,
    hnone, ?_, ?_, ?_, ?_, ?_, ?_⟩
  · rw [hperformed.counts]
    exact hrest.counts
  · rw [hperformed.counts]
    exact hrest.clean.1
  · rw [hrest.batch]
    exact hopened.numbered setting hready
  · rw [← hperformed.world, ← hrequests, ← hcalls]
    exact hrest.calls
  · rw [← hperformed.world, ← hstore]
    exact hrest.store
  · rw [hperformed.loaded setting hfinished hready hclock]
    obtain ⟨d, now, hsame, hrecords⟩ := hrest.records
    rw [hrecords, hmanifest c w₁ hopened, hsettled d now (hopened.same.trans hsame)]

/-- A run in a tree whose records are reconciled has nothing to do. -/
theorem reconciled_rests (hstill : setting.env.Still) (houtside : setting.Outside)
    (hfilter : setting.config.filterOf setting.root = .ok filter) (target : DiffTarget)
    (w : World σ) (m m' : Manifest) (git : Git.View) (hready : Ready setting.stateDir home w.disk)
    (htree : filter.Detached home w.disk) (hclock : w.clock.Valid) (hcalm : w.isCancelled = false)
    (hfree : ¬ setting.Barred home w) (hload : w.loadManifest setting.stateDir = .ok m')
    (hreadable : filter.Readable w.disk m')
    (hm : ∀ p, m'.hashAt p = (filter.treeView w.disk git).reconciled m p) :
    ∃ c w₁ report w' res, setting.Resting filter target w m' c w₁ report w' res := by
  apply idle_rests setting hstill hfilter target w m' hready htree.apart hclock hcalm hfree hload
  · intro c w₁ hopened hc
    obtain ⟨source, hdetection⟩ := houtside.detection filter w₁.disk c.manifest c.reference target
    have hreadable₁ := hreadable.of_same htree hopened.same
    rw [hdetection, hc]
    dsimp only
    constructor
    · apply TreeView.scan_idle (setting.treeView filter w₁.disk) m m'
      intro p
      rw [hm p]
      exact (htree.reconciled hopened.same _ _ m p).symm
    · rw [List.eq_nil_iff_forall_not_mem]
      intro p hp
      obtain ⟨hin, hlook⟩ := ((setting.treeView filter w₁.disk).scan_skipped m' p).mp hp
      exact hreadable₁ p hin hlook
  · intro d now _
    rw [houtside.headDivergence]
    rfl

/-- Outside version control, a run without a failed file leaves the records as the tree has them,
and the next run has nothing to do. The state directory may be made by the run. -/
theorem auto_reconciles (hstill : setting.env.Still) (houtside : setting.Outside)
    (hfilter : setting.config.filterOf setting.root = .ok filter) (target : DiffTarget)
    (w w' : World σ) (d : Disk) (m : Manifest) (report : RunReport σ) (res : IndexResult)
    (hmade : w.disk.makeDirectoryAll setting.stateDir = .ok d)
    (hready : Ready setting.stateDir home d) (htree : filter.Detached home d)
    (hclock : w.clock.Valid)
    (hload : ({ w with disk := d } : World σ).loadManifest setting.stateDir = .ok m)
    (hreadable : filter.Readable d m)
    (hrun : (setting.perform (.repository (.auto target))).run w = (.ok report, w'))
    (hres : report.outcome = .ok res) (hdone : res.status ≠ .aborted)
    (hfailed : res.filesFailed = 0)
    (hbatch : ∀ n, report.state.checkpoint.lastCompletedBatch = some n → n < Nat.pow 2 64) :
    ∃ m', w'.loadManifest setting.stateDir = .ok m' ∧ filter.Reconciled w'.disk m m' ∧
      ∀ (target₂ : DiffTarget) (w₂ : World σ), w₂.disk = w'.disk → w₂.clock.Valid →
        w₂.isCancelled = false → home ++ [World.lockName] ∉ w₂.held →
        ∃ c w₁ report₂ w₂' res₂, setting.Resting filter target₂ w₂ m' c w₁ report₂ w₂' res₂ := by
  rw [perform_made setting _ w d hmade hready] at hrun
  obtain ⟨c, w₁, res', hperformed⟩ := runs_ok _ _ _
    (perform_performed setting filter hstill hfilter (.repository (.auto target))
      { w with disk := d } hready htree.apart) hrun
  have heq : res' = res := Except.ok.inj (hperformed.outcome.symm.trans hres)
  subst heq
  have hopened := hperformed.opened
  rcases hperformed.ended with ⟨haborted, _⟩ | hfinished
  · exact absurd haborted hdone
  have hmanifest : c.manifest = m := Except.ok.inj (hopened.manifest.symm.trans hload)
  have hsame₁ : Same home d w₁.disk := hopened.same
  have hsame' : Same home d w'.disk := by
    rw [← hperformed.world]
    exact hsame₁.trans hfinished.same
  have hready' : Ready setting.stateDir home w'.disk := hready.of_same hsame'
  -- the run worked through the changes of a scan
  have hhashes (p : String) : report.state.manifest.hashAt p =
      (filter.treeView w'.disk .outside).reconciled m p := by
    have hnofail : report.state.result.filesFailed = 0 := by
      rw [hperformed.counts] at hfailed
      exact hfailed
    have hwork := hfinished.reworked hnofail
    obtain ⟨source, hdetection⟩ := houtside.detection filter w₁.disk c.manifest c.reference target
    rw [hdetection, hmanifest] at hwork
    rw [(setting.treeView filter w₁.disk).scan_reconciles m _ hwork p]
    exact (htree.reconciled hsame₁ .outside _ m p).trans
      (htree.reconciled hsame' .outside _ m p).symm
  have hreadable' : filter.Readable w'.disk m := hreadable.of_same htree hsame'
  have hreconciled := reconciled_of_hashes hreadable' hhashes
  have hloaded := hperformed.loaded setting hfinished hready hclock
  refine ⟨report.state.manifest, hloaded, hreconciled, ?_⟩
  intro target₂ w₂ hdisk hclock₂ hcalm₂ hlock₂
  obtain ⟨hfree₂, hload₂, _⟩ :=
    hperformed.next setting hfinished hready hclock hbatch hdisk hlock₂
  apply reconciled_rests setting hstill houtside hfilter target₂ w₂ m report.state.manifest
    .outside (hdisk ▸ hready') (hdisk ▸ htree.of_same hsame') hclock₂ hcalm₂ hfree₂ hload₂
  · exact hdisk ▸ hreconciled.readable hreadable'
  · exact hdisk ▸ hhashes

end RunSetting

section Drifted

open RunSetting

/-- A small root without links is detached from its state directory. -/
theorem sample_detached (d : Disk) (hlinks : d.Linkless) : sampleFilter.Detached sampleHome d := by
  have hname : sampleFilter.config.stateDir = ".sift" := by decide
  have hroot : sampleFilter.root = "/w" := by decide
  apply FileFilter.detached_of_linkless hlinks
  · constructor <;> rw [hname] <;> decide
  · rw [hname]
    decide
  · rw [hname, hroot]
    decide

def driftedDisk : Disk := sampleDisk [("a.py", "z"), ("b.py", "b")]

def driftedManifest : Manifest := namedManifest ["a", "d"]

def driftedWorld : World MemoryStore :=
  { sampleWorld driftedDisk (sampleCheckpoint "old") driftedManifest with
    store := namedStore ["a", "d"] }

def driftedRun : RunM (World MemoryStore) (RunReport MemoryStore) :=
  let w₁ := ((World.lock "/w/.sift").run driftedWorld).2
  namedSetting.execute sampleFilter
    ⟨.newRun "run" (some "old") none driftedWorld.clock, driftedManifest, false⟩
    (namedSetting.detection sampleFilter w₁.disk driftedManifest (some "old")
      (.repository (.auto .head))) false

theorem drifted_ended : ∃ report w',
    driftedRun.run { ((World.lock "/w/.sift").run driftedWorld).2 with runsStarted := 1 } =
      (.ok report, w') ∧ report.IsFinished ∧
    (report.outcome.toOption.map fun res => (res.filesProcessed, res.filesFailed)) = some (3, 0) ∧
    (report.outcome.toOption.map fun res => (res.entitiesAdded, res.entitiesRemoved)) =
      some (2, 2) ∧
    (report.state.checkpoint.lastCompletedBatch.all (· < Nat.pow 2 64)) = true :=
  runs_returns _ (by decide +kernel)

theorem drifted_ready : Ready "/w/.sift" sampleHome driftedDisk := by
  apply sample_ready <;> decide

theorem drifted_linkless : driftedDisk.Linkless := Disk.linkless_of_all _ (by decide)

theorem drifted_readable : sampleFilter.Readable driftedDisk driftedManifest := by
  have hscan : sampleFilter.scan driftedDisk = ["a.py", "b.py"] := by decide
  have hlooks : ∀ p ∈ ["a.py", "b.py", "d.py"],
      sampleFilter.inspect driftedDisk p ≠ .unreadable := by decide +kernel
  intro p hp
  apply hlooks
  rcases hp with hp | hp
  · rw [hscan] at hp
    exact List.mem_append_left ["d.py"] hp
  · unfold driftedManifest at hp
    rw [get?_namedManifest, Option.isSome_map, List.find?_isSome] at hp
    obtain ⟨text, htext, heq⟩ := hp
    have hnamed : ∀ text ∈ ["a", "d"], text ++ ".py" ∈ ["a.py", "b.py", "d.py"] := by decide
    rw [← of_decide_eq_true heq]
    exact hnamed text htext

/-- The three files are reconciled by one run, and the runs after it have nothing to do. -/
theorem drifted_reconciles : ∃ report w' res m',
    (namedSetting.perform (.repository (.auto .head))).run driftedWorld = (.ok report, w') ∧
    report.outcome = .ok res ∧ res.filesProcessed = 3 ∧ res.entitiesAdded = 2 ∧
    res.entitiesRemoved = 2 ∧ w'.loadManifest namedSetting.stateDir = .ok m' ∧
    sampleFilter.Reconciled w'.disk driftedManifest m' ∧
    ∀ (target₂ : DiffTarget) (w₂ : World MemoryStore), w₂.disk = w'.disk → w₂.clock.Valid →
      w₂.isCancelled = false → sampleHome ++ [World.lockName] ∉ w₂.held →
      ∃ c w₁ report₂ w₂' res₂,
        namedSetting.Resting sampleFilter target₂ w₂ m' c w₁ report₂ w₂' res₂ := by
  have hsame : Same sampleHome driftedDisk driftedWorld.disk := World.holding_same _ _ drifted_ready
  have hdir : namedSetting.stateDir = "/w/.sift" := sample_stateDir _ _
  have hready : Ready namedSetting.stateDir sampleHome driftedWorld.disk := by
    rw [hdir]
    exact drifted_ready.of_same hsame
  obtain ⟨hcheckpoint, hload⟩ := World.load_holding (sampleCheckpoint "old") driftedManifest
    driftedWorld drifted_ready (sampleCheckpoint_storable "old") (namedManifest_storable _) rfl
  rw [← hdir] at hcheckpoint hload
  obtain ⟨report, w', hran, ⟨res, hres, hdone⟩, hfiles, hentities, hbatch⟩ := drifted_ended
  have hrun : (namedSetting.perform (.repository (.auto .head))).run driftedWorld =
      (.ok report, w') := by
    rw [perform_anew namedSetting sampleFilter_eq (.repository (.auto .head)) hready
      List.not_mem_nil hcheckpoint hload rfl, hdir, ← hran]
    rfl
  rw [hres] at hfiles hentities
  injection Option.some.inj hfiles with hprocessed hfailed
  injection Option.some.inj hentities with hadded hremoved
  have htree := (sample_detached _ drifted_linkless).of_same hsame
  obtain ⟨m', hm'⟩ := auto_reconciles namedSetting (sample_still _ _) (fun _ => rfl)
    sampleFilter_eq .head driftedWorld w' driftedWorld.disk driftedManifest report res hready.made
    hready htree sample_clock hload
    (drifted_readable.of_same (sample_detached _ drifted_linkless) hsame) hrun hres hdone hfailed
    (fun n hn => by
      rw [hn] at hbatch
      exact of_decide_eq_true hbatch)
  exact ⟨report, w', res, m', hrun, hres, hprocessed, hadded, hremoved, hm'⟩

end Drifted

end CodeIndex
