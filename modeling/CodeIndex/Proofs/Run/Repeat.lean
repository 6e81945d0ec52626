import CodeIndex.Proofs.Change.Complete
import CodeIndex.Proofs.Run.Calm
import CodeIndex.Proofs.Run.Reconcile

/-!
Runs that are made again on a tree that stays as it is. The first leaves right the records of the
paths that it looks at, so the second has nothing to do exactly when it looks at no other path whose
record was wrong.
-/

namespace CodeIndex

open StateDir

/-- Whether a path is as its record says depends on the recorded hash alone. -/
theorem same_iff_hashAt (m : Manifest) (p : String) (s : FileState) :
    compareRecord (m.get? p) s = .same ↔ (∃ hash, m.hashAt p = some hash ∧ s = .present hash) ∨
      m.hashAt p = none ∧ (s = .missing ∨ s = .excluded) := by
  rw [compareRecord_same, Manifest.hashAt_none]
  refine or_congr_left ⟨?_, ?_⟩
  · rintro ⟨r, hash, hr, hs, hhash⟩
    exact ⟨hash, by rw [Manifest.hashAt, hr, ← hhash]; rfl, hs⟩
  · rintro ⟨hash, hhash, hs⟩
    obtain ⟨r, hr, heq⟩ := Option.map_eq_some_iff.mp hhash
    exact ⟨r, hash, hr, hs, heq⟩

section Confirmation

variable (m : Manifest) (look : String → FileState) (candidates : ChangeSet)

variable {m look candidates} (hreadable : ∀ p ∈ candidates.mentioned, look p ≠ .unreadable)

include hreadable

/-- Once confirmed candidates are worked through, a path is as its record says if it was looked at,
and else if it was before. -/
theorem confirmed_same_iff (m' : Manifest)
    (hwork : Reworked look m m' (confirm m look candidates).changes.Writes
      (confirm m look candidates).changes.Removes
      fun p => p ∈ (confirm m look candidates).changes.mentioned) (p : String) :
    compareRecord (m'.get? p) (look p) = .same ↔
      (Sorting.ofCandidates m look candidates).Covers p ∨
        compareRecord (m.get? p) (look p) = .same := by
  -- a path that the changes do not mention has the record that it had
  have hother (h : p ∉ (confirm m look candidates).changes.mentioned) :
      compareRecord (m'.get? p) (look p) = .same ↔ compareRecord (m.get? p) (look p) = .same := by
    rw [same_iff_hashAt, same_iff_hashAt, hwork.rest p h]
  by_cases hin : p ∈ (confirm m look candidates).changes.mentioned
  · refine ⟨fun _ => .inl (confirm_mentions m look candidates p hin), fun _ => ?_⟩
    rw [same_iff_hashAt]
    rcases (ChangeSet.mentioned_iff _ p).mp hin with hwrites | hremoves
    · obtain ⟨hash, hlook, hhash⟩ := hwork.kept p hwrites
      exact .inl ⟨hash, hhash, hlook⟩
    · have hfounded := confirm_founded m look candidates
      have hgone : (look p).isPresent = false := by
        rcases hremoves with h | ⟨e, he, rfl⟩
        · exact (hfounded.deleted p h).2
        · exact (hfounded.renamed e he).2.1
      have hread := hreadable p (covers_mentioned m look candidates p
        (confirm_mentions m look candidates p hin))
      refine .inr ⟨hwork.dropped p hremoves, ?_⟩
      cases hlook : look p with
      | present hash =>
        rw [hlook] at hgone
        cases hgone
      | missing => exact .inl rfl
      | excluded => exact .inr rfl
      | unreadable => exact absurd hlook hread
  · rw [hother hin]
    refine ⟨.inr, fun h => h.elim (fun hcovers => ?_) id⟩
    rcases confirm_covers m look candidates p hcovers with hsame | hskipped | hmentioned
    · exact hsame
    · rw [confirm_skips_nothing hreadable] at hskipped
      exact absurd hskipped List.not_mem_nil
    · exact absurd hmentioned hin

end Confirmation

namespace TreeView

/-- A run that detects changes looks at the path. -/
def LooksAt (t : TreeView) (m : Manifest) (reference : Option String) (target : DiffTarget)
    (p : String) : Prop :=
  (Sorting.ofCandidates m t.look (t.candidates m reference target)).Covers p

/-- The path is as its record says. -/
def Current (t : TreeView) (m : Manifest) (p : String) : Prop :=
  compareRecord (m.get? p) (t.look p) = .same

/-- What a run takes for candidates can be read. -/
def Readable (t : TreeView) (m : Manifest) (reference : Option String) (target : DiffTarget) :
    Prop :=
  ∀ p ∈ (t.candidates m reference target).mentioned, t.look p ≠ .unreadable

end TreeView

namespace RunSetting

open RunState FileFilter

variable {σ : Type} (setting : RunSetting σ) {home : Location} {filter : FileFilter}

/-- Version control answers the same, whatever runs write to the state directory. -/
def Unmoved (home : Location) (d : Disk) : Prop :=
  ∀ d', Same home d d' → setting.env.git d' = setting.env.git d

variable {setting} in
theorem Unmoved.treeView {d : Disk} (hgit : setting.Unmoved home d)
    (htree : filter.Detached home d) (d' : Disk) (hsame : Same home d d') :
    setting.treeView filter d' = setting.treeView filter d := by
  show TreeView.mk _ _ _ = TreeView.mk _ _ _
  congr 1
  · exact funext fun p => htree.apart.inspect hsame p
  · exact htree.walk d' hsame
  · exact hgit d' hsame

/-- What a run detects in such a tree that has loaded some records. -/
theorem Unmoved.detection {setting : RunSetting σ} {d : Disk} (hgit : setting.Unmoved home d)
    (htree : filter.Detached home d) (target : DiffTarget) (d' : Disk) (hsame : Same home d d')
    (m : Manifest) (reference : Option String) :
    let t := setting.treeView filter d
    let found := confirm m t.look (t.candidates m reference target)
    ∃ source, setting.detection filter d' m reference (.repository (.auto target)) =
      ⟨found.changes, source, t.head, found.skipped⟩ := by
  obtain ⟨source, hdetect⟩ := (setting.treeView filter d').detect_confirm m reference target
  refine ⟨source, ?_⟩
  show (setting.treeView filter d').detect m reference target = _
  rw [hgit.treeView htree d' hsame] at hdetect ⊢
  exact hdetect

/-- After a clean run on a tree that stays as it is, the flags say which recorded paths the tree has
other than the commit, the checkpoint names the commit, and a path is as recorded if the run looked
at it or it was so before. -/
theorem Performed.looked {setting : RunSetting σ} {target : DiffTarget} {w w₁ w' : World σ}
    {c : RunContext} {report : RunReport σ} {res : IndexResult}
    (hperformed : setting.Performed home filter (.repository (.auto target)) w c w₁ report w' res)
    (hfinished : setting.Finished home filter (filter.inspect w₁.disk) c
      (setting.detection filter w₁.disk c.manifest c.reference (.repository (.auto target))) w₁
      report.state)
    (htree : filter.Detached home w.disk) (hgit : setting.Unmoved home w.disk)
    (hclean : report.state.Clean) :
    let t := setting.treeView filter w.disk
    (∀ found, t.headDivergence = .paths found →
      ∀ p r, report.state.manifest.get? p = some r → r.diverged = found.contains r.path) ∧
    report.state.checkpoint.lastIndexedCommit = t.head.or c.reference ∧
    (t.Readable c.manifest c.reference target → ∀ p, t.Current report.state.manifest p ↔
      t.LooksAt c.manifest c.reference target p ∨ t.Current c.manifest p) := by
  intro t
  have hsame := hperformed.opened.same
  obtain ⟨source, hfound⟩ := hgit.detection htree target w₁.disk hsame c.manifest c.reference
  have hrecords := hfinished.records hclean
  have hlast := hfinished.last
  have hlook : filter.inspect w₁.disk = t.look :=
    congrArg TreeView.look (hgit.treeView htree w₁.disk hsame)
  rw [hfound, hlook] at hrecords
  rw [hfound, if_pos hclean] at hlast
  refine ⟨fun found hdivergence => ?_, hlast, fun hreadable => confirmed_same_iff hreadable _ hrecords⟩
  obtain ⟨d, hsame', hall⟩ := hfinished.flags hclean
  rw [hgit.treeView htree d (hsame.trans hsame')] at hall
  exact hall found hdivergence

/-- A run is made again with the same target, on a tree that stays as it is: it comes to rest
exactly when it looks at no path but those that the first run looked at and those that were as
recorded before. It looks at what its target reports since the commit that is checked out, and at
the recorded paths that the tree has other than that commit. -/
theorem repeat_rests_iff (hstill : setting.env.Still)
    (hfilter : setting.config.filterOf setting.root = .ok filter) (target : DiffTarget)
    (w w₁ w' : World σ) (c : RunContext) (report : RunReport σ) (res : IndexResult)
    (hready : Ready setting.stateDir home w.disk) (htree : filter.Detached home w.disk)
    (hgit : setting.Unmoved home w.disk) (hclock : w.clock.Valid)
    (hopen : setting.openRun.run w = (.ok c, w₁))
    (hrun : (setting.perform (.repository (.auto target))).run w = (.ok report, w'))
    (hres : report.outcome = .ok res) (hdone : res.status ≠ .aborted)
    (hclean : report.state.Clean)
    (hbatch : ∀ n, report.state.checkpoint.lastCompletedBatch = some n → n < Nat.pow 2 64) :
    let t := setting.treeView filter w.disk
    let commit := t.head.or c.reference
    ∃ m', w'.loadManifest setting.stateDir = .ok m' ∧
      (∀ found, t.headDivergence = .paths found →
        ∀ p r, m'.get? p = some r → r.diverged = found.contains r.path) ∧
      ∀ w₂ : World σ, w₂.disk = w'.disk → w₂.clock.Valid → w₂.isCancelled = false →
        home ++ [World.lockName] ∉ w₂.held → t.Readable c.manifest c.reference target →
        t.Readable m' commit target →
        ((∃ c₂ w₃ report₂ w₂' res₂,
            setting.Resting filter target w₂ m' c₂ w₃ report₂ w₂' res₂) ↔
          ∀ p, t.LooksAt m' commit target p →
            t.LooksAt c.manifest c.reference target p ∨ t.Current c.manifest p) := by
  intro t commit
  obtain ⟨res', hperformed⟩ := runs_ok _ _ _
    (perform_opened setting filter hstill hfilter _ w w₁ c hready htree.apart hopen) hrun
  have heq : res' = res := Except.ok.inj (hperformed.outcome.symm.trans hres)
  subst heq
  have hfinished := hperformed.ended.resolve_left fun h => hdone h.1
  obtain ⟨hflags, hlast, hlooked⟩ := hperformed.looked hfinished htree hgit hclean
  have hsame' : Same home w.disk w'.disk := by
    rw [← hperformed.world]
    exact hperformed.opened.same.trans hfinished.same
  refine ⟨report.state.manifest, hperformed.loaded setting hfinished hready hclock, hflags, ?_⟩
  intro w₂ hdisk hclock₂ hcalm₂ hlock₂ hreadable hreadable'
  have hsame₂ : Same home w.disk w₂.disk := hdisk ▸ hsame'
  have hready₂ := hready.of_same hsame₂
  obtain ⟨hfree₂, hload₂, hbegun⟩ :=
    hperformed.next setting hfinished hready hclock hbatch hdisk hlock₂
  -- the second run detects what is not as the first one has left it
  have hidle (c₂ : RunContext) (w₃ : World σ) (hopened₂ : setting.Opened home w₂ c₂ w₃) :
      let found := setting.detection filter w₃.disk c₂.manifest c₂.reference
        (.repository (.auto target))
      found.skipped = [] ∧ (found.changes.isEmpty = true ↔
        ∀ p, t.LooksAt report.state.manifest commit target p →
          t.LooksAt c.manifest c.reference target p ∨ t.Current c.manifest p) := by
    obtain ⟨hm, hreference⟩ := hbegun c₂ w₃ hopened₂
    obtain ⟨source₂, hfound₂⟩ := hgit.detection htree target w₃.disk
      (hsame₂.trans hopened₂.same) c₂.manifest c₂.reference
    rw [hfound₂, hm, hreference, hlast]
    refine ⟨confirm_skips_nothing hreadable', (confirm_idle_iff hreadable').trans ?_⟩
    exact forall₂_congr fun p _ => hlooked hreadable p
  constructor
  · rintro ⟨c₂, w₃, report₂, w₂', res₂, hrest⟩
    have hopened₂ := runs_ok _ _ _ (openRun_opened setting w₂ hready₂) hrest.opened
    exact (hidle c₂ w₃ hopened₂).2.mp hrest.detected
  · intro hlooks
    apply idle_rests setting hstill hfilter target w₂ report.state.manifest hready₂
      (htree.apart.of_same hsame₂) hclock₂ hcalm₂ hfree₂ hload₂
    · intro c₂ w₃ hopened₂ _
      obtain ⟨hskipped, hnone⟩ := hidle c₂ w₃ hopened₂
      exact ⟨hnone.mpr hlooks, hskipped⟩
    · intro d now hsame
      rw [hgit.treeView htree d (hsame₂.trans hsame)]
      exact settled_flagged hflags now

end RunSetting

section Dirty

open RunSetting RunState

def dirtyView : Git.View where
  isWorkTree := true
  head := some "new"
  commitExists _ := true
  mergeBase _ _ := .ok "new"
  diff := fun
    | .working _ => .ok (Git.nulTerminated ["M", "a.py"])
    | _ => .ok .empty
  untracked := .ok .empty

def dirtySetting : RunSetting MemoryStore :=
  sampleSetting ⟨fun _ => true, fun _ _ => .ok []⟩ fun _ => dirtyView

def dirtyDisk : Disk := sampleDisk [("a.py", "y")]

def dirtyManifest : Manifest :=
  Manifest.empty.recordIndexed
    { path := "a.py"
      contentHash := Digest.contentHash "x".toUTF8
      lastSeenCommit := none
      modificationTime := 0
      lineage := "1"
      entityIds := [] } .zero

theorem dirtyManifest_storable : dirtyManifest.Storable := by
  have hnow : Duration.zero.secs < Nat.pow 2 63 := by decide
  exact Manifest.empty_storable.recordIndexed _ (by decide) .zero hnow

theorem get?_dirtyManifest (p : String) (r : FileRecord) (h : dirtyManifest.get? p = some r) :
    p = "a.py" ∧ r.contentHash = Digest.contentHash "x".toUTF8 := by
  unfold dirtyManifest at h
  rw [Manifest.get?_recordIndexed, Manifest.get?_empty] at h
  split at h
  · rename_i hp
    injection h with h
    exact ⟨hp.symm, by rw [← h]⟩
  · cases h

def dirtyWorld : World MemoryStore :=
  sampleWorld dirtyDisk (sampleCheckpoint "new") dirtyManifest

theorem dirty_candidates (look : String → FileState) (files : List String) (m : Manifest)
    (hm : m.isEmpty = false) :
    (⟨look, files, dirtyView⟩ : TreeView).candidates m (some "new") .head =
      ({} : ChangeSet).withRechecks m.divergedPaths := by
  have hparse : DiffEntry.parse .empty = .ok [] := by decide +kernel
  have hgit : (⟨look, files, dirtyView⟩ : TreeView).gitCandidates (some "new") .head =
      .ok (some {}) := by
    show (do
      let entries ← DiffEntry.parse .empty
      return some (DiffEntry.changes entries) : Except IndexError (Option ChangeSet)) = _
    rw [hparse]
    rfl
  unfold TreeView.candidates
  rw [hm, hgit]
  rfl

theorem dirty_rechecks (paths : List String) (h : ∀ p, p ∈ paths ↔ p = "a.py") :
    ({} : ChangeSet).withRechecks paths = { modified := ["a.py"] } := by
  have hextra : paths.filter (fun p => !({} : ChangeSet).mentioned.contains p) = paths :=
    List.filter_eq_self.mpr fun _ _ => rfl
  have hsorted := sortedPaths_single paths "a.py" h
  unfold ChangeSet.withRechecks
  rw [hextra]
  cases paths with
  | nil => cases hsorted
  | cons first rest =>
    show ChangeSet.ofLists [] (first :: rest) [] [] = _
    unfold ChangeSet.ofLists
    rw [hsorted]
    rfl

theorem dirty_divergence (look : String → FileState) (files : List String) :
    (⟨look, files, dirtyView⟩ : TreeView).headDivergence = .paths (.ofList ["a.py"]) := by
  have hdiff : (⟨look, files, dirtyView⟩ : TreeView).diff (.working "HEAD") =
      .ok [.modified "a.py"] := by
    show DiffEntry.parse (Git.nulTerminated ["M", "a.py"]) = _
    decide +kernel
  have hnew : (⟨look, files, dirtyView⟩ : TreeView).untracked = .ok [] := by
    show Except.ok (reportedPaths .empty) = _
    decide +kernel
  unfold TreeView.headDivergence
  rw [hdiff, hnew]
  rfl

theorem dirty_ready : Ready "/w/.sift" sampleHome dirtyDisk := by
  apply sample_ready <;> decide

theorem dirty_linkless : dirtyDisk.Linkless := Disk.linkless_of_all _ (by decide)

theorem dirty_open : Ready dirtySetting.stateDir sampleHome dirtyWorld.disk ∧
    sampleFilter.Apart sampleHome dirtyWorld.disk ∧
      ¬ dirtySetting.Barred sampleHome dirtyWorld :=
  sample_open _ _ _ _ _ dirtyWorld rfl rfl dirty_ready dirty_linkless
    (sampleCheckpoint_storable "new") dirtyManifest_storable

theorem dirty_inspect (d : Disk) (hsame : Same sampleHome dirtyDisk d) :
    sampleFilter.inspect d "a.py" = .present (Digest.contentHash "y".toUTF8) := by
  rw [(sample_apart dirtyDisk dirty_linkless).inspect hsame, FileFilter.inspect_present]
  exact ⟨by decide, "y".toUTF8, 0, by decide, by decide,
    by decide +kernel, rfl⟩

theorem dirty_detection (d : Disk) : ∃ source,
    dirtySetting.detection sampleFilter d dirtyManifest (some "new")
      (.repository (.auto .head)) = ⟨{}, source, some "new", []⟩ := by
  obtain ⟨source, hdetect⟩ :=
    (dirtySetting.treeView sampleFilter d).detect_confirm dirtyManifest (some "new") .head
  have hcandidates : (dirtySetting.treeView sampleFilter d).candidates dirtyManifest
      (some "new") .head = {} := dirty_candidates _ _ dirtyManifest (by decide)
  rw [hcandidates] at hdetect
  exact ⟨source, hdetect⟩

theorem dirty_begun (c : RunContext) (w₁ : World MemoryStore)
    (hopened : dirtySetting.Opened sampleHome dirtyWorld c w₁) :
    c.manifest = dirtyManifest ∧ c.reference = some "new" := by
  have hdir : dirtySetting.stateDir = "/w/.sift" := sample_stateDir _ _
  obtain ⟨hcheckpoint, hmanifest⟩ := World.load_holding (sampleCheckpoint "new") dirtyManifest
    dirtyWorld dirty_ready (sampleCheckpoint_storable "new") dirtyManifest_storable rfl
  rw [← hdir] at hcheckpoint hmanifest
  obtain ⟨previous, hprevious, hreference⟩ := hopened.reference
  rw [hcheckpoint] at hprevious
  refine ⟨Except.ok.inj (hopened.manifest.symm.trans hmanifest), ?_⟩
  rw [hreference, ← Except.ok.inj hprevious]
  rfl

theorem dirty_run : ∃ c w₁ report w' res,
    dirtySetting.openRun.run dirtyWorld = (.ok c, w₁) ∧
    (dirtySetting.perform (.repository (.auto .head))).run dirtyWorld = (.ok report, w') ∧
    report.outcome = .ok res ∧ res.status ≠ .aborted ∧ report.state.Clean ∧
    c.manifest = dirtyManifest ∧ c.reference = some "new" ∧
    Same sampleHome dirtyWorld.disk w'.disk ∧
    w'.loadManifest dirtySetting.stateDir = .ok report.state.manifest ∧
    (∀ w₂ : World MemoryStore, w₂.disk = w'.disk → sampleHome ++ [World.lockName] ∉ w₂.held →
      ¬ dirtySetting.Barred sampleHome w₂ ∧ ∀ c₂ w₃, dirtySetting.Opened sampleHome w₂ c₂ w₃ →
        c₂.manifest = report.state.manifest ∧ c₂.reference = some "new") ∧
    (∀ n, report.state.checkpoint.lastCompletedBatch = some n → n < Nat.pow 2 64) ∧
    (∀ p, report.state.manifest.hashAt p = dirtyManifest.hashAt p) ∧
    ∀ p r, report.state.manifest.get? p = some r → r.path = "a.py" ∧ r.diverged = true := by
  obtain ⟨hready, hapart, hfree⟩ := dirty_open
  obtain ⟨c, w₁, report, w', res, hopen, hrun, hperformed, hfinished, hclean⟩ :=
    perform_idle dirtySetting sampleFilter (sample_still _ _) sampleFilter_eq
      (.repository (.auto .head)) dirtyWorld hready hapart hfree rfl (by
        intro c w₁ hopened
        obtain ⟨hc, href⟩ := dirty_begun c w₁ hopened
        obtain ⟨source, hdetection⟩ := dirty_detection w₁.disk
        rw [hc, href, hdetection]
        exact ⟨rfl, rfl⟩)
  have hopened := hperformed.opened
  obtain ⟨hc, href⟩ := dirty_begun c w₁ hopened
  obtain ⟨source, hdetection⟩ := dirty_detection w₁.disk
  -- what was detected is empty, so that the run is done at once
  have hnone : (dirtySetting.detection sampleFilter w₁.disk c.manifest c.reference
      (.repository (.auto .head))).changes.isEmpty = true := by
    rw [hc, href, hdetection]
    rfl
  have hcalm₁ : w₁.isCancelled = false := hopened.rest.2.2.1
  have hdone : res.status ≠ .aborted := by
    rw [hperformed.idle hnone hcalm₁]
    decide
  have hloaded := hperformed.loaded dirtySetting hfinished hready sample_clock
  have hsame : Same sampleHome dirtyWorld.disk w'.disk := by
    rw [← hperformed.world]
    exact hopened.same.trans hfinished.same
  have hbatch (n : Nat) (hn : report.state.checkpoint.lastCompletedBatch = some n) :
      n < Nat.pow 2 64 := by
    rw [hc, href, hdetection] at hfinished
    rw [(hfinished.idle rfl rfl hcalm₁).batch] at hn
    exact hopened.numbered dirtySetting hready n hn
  have hkeyed : report.state.manifest.Keyed := by
    apply hfinished.keyed
    rw [hc]
    exact Manifest.keyed_recordIndexed _ _ _ Manifest.keyed_empty
  have hlast := hfinished.last
  have hrecords := hfinished.records hclean
  rw [if_pos hclean, hc, href, hdetection] at hlast
  rw [hc, href, hdetection] at hrecords
  have hhash (p : String) : report.state.manifest.hashAt p = dirtyManifest.hashAt p :=
    hrecords.rest p List.not_mem_nil
  have hnext (w₂ : World MemoryStore) (hdisk : w₂.disk = w'.disk)
      (hlock : sampleHome ++ [World.lockName] ∉ w₂.held) :
      ¬ dirtySetting.Barred sampleHome w₂ ∧ ∀ c₂ w₃, dirtySetting.Opened sampleHome w₂ c₂ w₃ →
        c₂.manifest = report.state.manifest ∧ c₂.reference = some "new" := by
    have hleft := hperformed.next dirtySetting hfinished hready sample_clock hbatch hdisk hlock
    rw [hlast] at hleft
    exact ⟨hleft.1, hleft.2.2⟩
  refine ⟨c, w₁, report, w', res, hopen, hrun, hperformed.outcome, hdone, hclean, hc, href, hsame,
    hloaded, hnext, hbatch, hhash, fun p r hr => ?_⟩
  -- the only record is that of the file, which diverges from the commit
  have hp : p = "a.py" := by
    have hsome := hhash p
    rw [Manifest.hashAt, hr] at hsome
    obtain ⟨r₀, hr₀, _⟩ := Option.map_eq_some_iff.mp hsome.symm
    exact (get?_dirtyManifest p r₀ hr₀).1
  have hpath : r.path = "a.py" := (hkeyed p r hr).trans hp
  obtain ⟨d, _, hflags⟩ := hfinished.flags hclean
  refine ⟨hpath, ?_⟩
  rw [hflags _ (dirty_divergence _ _) p r hr, hpath]
  decide

theorem dirty_flagged (m : Manifest) (hhash : ∀ p, m.hashAt p = dirtyManifest.hashAt p)
    (hflags : ∀ p r, m.get? p = some r → r.path = "a.py" ∧ r.diverged = true)
    (look : String → FileState) (files : List String) :
    m.hashAt "a.py" = some (Digest.contentHash "x".toUTF8) ∧
      (⟨look, files, dirtyView⟩ : TreeView).candidates m (some "new") .head =
        { modified := ["a.py"] } := by
  have hfile : m.hashAt "a.py" = some (Digest.contentHash "x".toUTF8) := by
    rw [hhash, Manifest.hashAt, dirtyManifest, Manifest.get?_recordIndexed, if_pos rfl]
    rfl
  obtain ⟨r, hr, _⟩ := Option.map_eq_some_iff.mp hfile
  have hsome : m.isEmpty = false := by
    rw [← Bool.not_eq_true, Manifest.isEmpty_iff]
    intro hnone
    rw [hnone] at hr
    cases hr
  have hdiverged (p : String) : p ∈ m.divergedPaths ↔ p = "a.py" := by
    unfold Manifest.divergedPaths
    rw [List.mem_map]
    constructor
    · rintro ⟨s, hs, rfl⟩
      obtain ⟨q, hq⟩ := (Manifest.mem_records _ s).mp (List.mem_of_mem_filter hs)
      exact (hflags q s hq).1
    · rintro rfl
      obtain ⟨hpath, hflag⟩ := hflags _ r hr
      exact ⟨r, List.mem_filter.mpr ⟨(Manifest.mem_records _ r).mpr ⟨_, hr⟩, hflag⟩, hpath⟩
  exact ⟨hfile, (dirty_candidates look files m hsome).trans (dirty_rechecks _ hdiverged)⟩

/-- The file is indexed with its content in the working tree, by a run that is to look at the commit
that is checked out, right after one that found nothing to do. -/
theorem dirty_repeated : ∃ c w₁ report w' res m',
    dirtySetting.openRun.run dirtyWorld = (.ok c, w₁) ∧
    (dirtySetting.perform (.repository (.auto .head))).run dirtyWorld = (.ok report, w') ∧
    report.outcome = .ok res ∧ res.status ≠ .aborted ∧ report.state.Clean ∧
    c.reference = some "new" ∧ w'.loadManifest dirtySetting.stateDir = .ok m' ∧
    ∀ w₂ : World MemoryStore, w₂.disk = w'.disk → w₂.clock.Valid → w₂.isCancelled = false →
      sampleHome ++ [World.lockName] ∉ w₂.held → ∃ report₂ w₂' m₂,
        (dirtySetting.perform (.repository (.auto .head))).run w₂ = (.ok report₂, w₂') ∧
        report₂.state.Clean ∧ w₂'.loadManifest dirtySetting.stateDir = .ok m₂ ∧
        m₂.hashAt "a.py" ≠ m'.hashAt "a.py" := by
  obtain ⟨c, w₁, report, w', res, hopen, hrun, hres, hdone, hclean, _, href, hsame, hloaded, hnext,
    _, hhash, hflags⟩ := dirty_run
  refine ⟨c, w₁, report, w', res, report.state.manifest, hopen, hrun, hres, hdone, hclean, href,
    hloaded, ?_⟩
  intro w₂ hdisk hclock hcalm hlock
  obtain ⟨hready, _, _⟩ := dirty_open
  have hready₂ : Ready dirtySetting.stateDir sampleHome w₂.disk := hdisk ▸ hready.of_same hsame
  have hsame₂ : Same sampleHome dirtyDisk w₂.disk := by
    rw [hdisk]
    exact (World.holding_same _ _ dirty_ready).trans hsame
  obtain ⟨hfree, hbegun⟩ := hnext w₂ hdisk hlock
  obtain ⟨c₂, w₃, report₂, w₂', res₂, _, hrun₂, hperformed, hfinished, _, hmisses⟩ :=
    perform_finished dirtySetting (sample_calm _ _) (sample_still _ _) rfl sampleFilter_eq
      (.repository (.auto .head)) w₂ hready₂ ((sample_apart _ dirty_linkless).of_same hsame₂) hfree
      hcalm
  have hopened := hperformed.opened
  obtain ⟨hc, href₂⟩ := hbegun c₂ w₃ hopened
  have hlook := dirty_inspect w₃.disk (hsame₂.trans hopened.same)
  obtain ⟨hhash', hcandidates⟩ := dirty_flagged report.state.manifest hhash hflags
    (sampleFilter.inspect w₃.disk) (sampleFilter.scan w₃.disk)
  obtain ⟨source, hdetect⟩ := (dirtySetting.treeView sampleFilter w₃.disk).detect_confirm
    report.state.manifest (some "new") .head
  have hdetection : dirtySetting.detection sampleFilter w₃.disk c₂.manifest c₂.reference
      (.repository (.auto .head)) =
      ⟨(confirm report.state.manifest (sampleFilter.inspect w₃.disk)
          { modified := ["a.py"] }).changes, source, some "new",
        (confirm report.state.manifest (sampleFilter.inspect w₃.disk)
          { modified := ["a.py"] }).skipped⟩ := by
    rw [hc, href₂, ← hcandidates]
    exact hdetect
  have hreadable : ∀ p ∈ ({ modified := ["a.py"] } : ChangeSet).mentioned,
      sampleFilter.inspect w₃.disk p ≠ .unreadable := by
    intro p hp
    rw [List.mem_singleton.mp hp, hlook]
    exact FileState.noConfusion
  have hskipped := confirm_skips_nothing (m := report.state.manifest) hreadable
  have hclean₂ := hmisses (sample_reliable _ _ fun _ _ => ⟨_, rfl⟩) (by
    rw [hdetection]
    exact hskipped)
  have hrecords := hfinished.records hclean₂
  rw [hdetection, hc] at hrecords
  have hcovers : (Sorting.ofCandidates report.state.manifest (sampleFilter.inspect w₃.disk)
      { modified := ["a.py"] }).Covers "a.py" :=
    .inl ((mem_sortedPaths _ _).mpr List.mem_cons_self)
  have hright := (confirmed_same_iff hreadable _ hrecords "a.py").mpr (.inl hcovers)
  rw [same_iff_hashAt, hlook] at hright
  refine ⟨report₂, w₂', report₂.state.manifest, hrun₂, hclean₂,
    hperformed.loaded dirtySetting hfinished hready₂ hclock, ?_⟩
  rw [hhash']
  rcases hright with ⟨hash, hnew, heq⟩ | ⟨hnone, _⟩
  · injection heq with heq
    rw [hnew, ← heq]
    decide +kernel
  · rw [hnone]
    exact nofun

/-- The condition at that file: the second run looks at it, which the first did not. -/
theorem dirty_rests : ∃ c w₁ report w' res m',
    dirtySetting.openRun.run dirtyWorld = (.ok c, w₁) ∧
    (dirtySetting.perform (.repository (.auto .head))).run dirtyWorld = (.ok report, w') ∧
    report.outcome = .ok res ∧ res.status ≠ .aborted ∧ report.state.Clean ∧
    w'.loadManifest dirtySetting.stateDir = .ok m' ∧
    let t := dirtySetting.treeView sampleFilter dirtyWorld.disk
    ∀ w₂ : World MemoryStore, w₂.disk = w'.disk → w₂.clock.Valid → w₂.isCancelled = false →
      sampleHome ++ [World.lockName] ∉ w₂.held → t.Readable c.manifest c.reference .head →
      t.Readable m' (t.head.or c.reference) .head →
      ((∃ c₂ w₃ report₂ w₂' res₂,
          dirtySetting.Resting sampleFilter .head w₂ m' c₂ w₃ report₂ w₂' res₂) ↔
        ∀ p, t.LooksAt m' (t.head.or c.reference) .head p →
          t.LooksAt c.manifest c.reference .head p ∨ t.Current c.manifest p) := by
  obtain ⟨c, w₁, report, w', res, hopen, hrun, hres, hdone, hclean, _, _, _, _, _, hbatch, _⟩ :=
    dirty_run
  obtain ⟨hready, _, _⟩ := dirty_open
  have htree := (sample_detached dirtyDisk dirty_linkless).of_same
    (World.holding_same (sampleCheckpoint "new") dirtyManifest dirty_ready)
  obtain ⟨m', hload, _, hrests⟩ := repeat_rests_iff dirtySetting (sample_still _ _) sampleFilter_eq
    .head dirtyWorld w₁ w' c report res hready htree (fun _ _ => rfl) sample_clock hopen hrun hres
    hdone hclean hbatch
  exact ⟨c, w₁, report, w', res, m', hopen, hrun, hres, hdone, hclean, hload, hrests⟩

end Dirty

end CodeIndex
