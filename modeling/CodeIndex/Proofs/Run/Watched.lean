import CodeIndex.Proofs.Run.Attested
import CodeIndex.Proofs.Run.Lineage

/-!
Histories of runs that ask version control what has changed in the working tree. As long as no run
overlooks a path, each record without a flag is that of the commit which the next run compares with,
and so the records stay those that a scan of the tree would lead to.
-/

namespace CodeIndex

open StateDir RunSetting

namespace Turn

variable {setting : RunSetting MemoryStore} {home : Location} {filter : FileFilter}
  {m m' : Manifest}

def tree (t : Turn setting home filter m m') : TreeView :=
  setting.treeView filter t.before.disk

/-- The run looks for changes of the working tree, misses none of the files that it turns to, and
begins with the commit that the index reflects. What version control answers is true of the commits
and of the tree, nothing that the run writes changes that, and no recorded file is ignored. -/
structure Watched (commits : String → String → Option ByteArray) (reference : Option String)
    (c : Checkout) (t : Turn setting home filter m m') : Prop where
  asked : t.request = .repository (.auto .workingTree)
  clean : t.report.state.Clean
  resumes : ∃ previous, t.before.loadCheckpoint setting.stateDir = .ok previous ∧
    previous.bind (·.lastIndexedCommit) = reference
  attested : filter.Attested t.before.disk (setting.env.git t.before.disk) commits c
  unmoved : setting.Unmoved home t.before.disk
  detached : filter.Detached home t.before.disk
  unignored : ∀ p, (m'.get? p).isSome → c.tracked p = true ∨ p ∈ c.untracked

/-- The run overlooks a path that a scan would not. -/
def Overlooks (t : Turn setting home filter m m') (p : String) : Prop :=
  t.tree.Overlooks m t.context.reference p

/-- A scan of the tree finds nothing to do for the records that the run has left. -/
def Settles (t : Turn setting home filter m m') : Prop :=
  ((setting.treeView filter t.after.disk).hashScan m').changes.isEmpty = true

namespace Watched

variable {commits : String → String → Option ByteArray} {reference : Option String} {c : Checkout}
  {t : Turn setting home filter m m'} (h : t.Watched commits reference c)
  (hstill : setting.env.Still) (hfilter : setting.config.filterOf setting.root = .ok filter)

include h hstill hfilter

/-- What such a run compares with, what it works through, and what it leaves. -/
theorem worked :
    let found := confirm m t.tree.look (t.tree.candidates m reference .workingTree)
    t.context.reference = reference ∧ t.result.lastIndexedCommit = some c.head ∧
      setting.treeView filter t.after.disk = t.tree ∧
      (m.Keyed → m'.Keyed) ∧ found.skipped = [] ∧
      Reworked t.tree.look m m' found.changes.Writes found.changes.Removes
        (fun p => p ∈ found.changes.mentioned) ∧
      ∀ paths, t.tree.headDivergence = .paths paths →
        ∀ p r, m'.get? p = some r → r.diverged = paths.contains r.path := by
  intro found
  obtain ⟨hm, hm', hperformed, hfinished⟩ := t.finished hstill hfilter
  have hreference : t.context.reference = reference := by
    obtain ⟨previous, hload, hcommit⟩ := h.resumes
    obtain ⟨previous', hload', hcommit'⟩ := hperformed.opened.reference
    rw [hload] at hload'
    rw [hcommit', ← hcommit, Except.ok.inj hload']
  have hsame := hperformed.opened.same
  obtain ⟨source, hdetected⟩ := h.unmoved.detection h.detached .workingTree t.opened.disk hsame m
    reference
  have hfound : t.detected = ⟨found.changes, source, t.tree.head, found.skipped⟩ := by
    unfold detected
    rw [h.asked, hreference]
    exact hdetected
  have htree : setting.treeView filter t.opened.disk = t.tree :=
    h.unmoved.treeView h.detached t.opened.disk hsame
  have hskipped := hfinished.skipped h.clean
  have hrecords := hfinished.records h.clean
  have hlast := hfinished.last
  have hkeeps := hfinished.keyed
  rw [hm, hm'] at hkeeps
  rw [hfound] at hskipped
  rw [hfound, hm, hm', show filter.inspect t.opened.disk = t.tree.look from
    congrArg TreeView.look htree] at hrecords
  rw [hfound, if_pos h.clean, show t.tree.head = some c.head from h.attested.head] at hlast
  refine ⟨hreference, hperformed.last.trans hlast, ?_, hkeeps, hskipped, hrecords, ?_⟩
  · rw [← hperformed.world]
    exact h.unmoved.treeView h.detached _ (hsame.trans hfinished.same)
  · intro paths hdivergence
    obtain ⟨d, hsame', hall⟩ := hfinished.flags h.clean
    rw [h.unmoved.treeView h.detached d (hsame.trans hsame'), hm'] at hall
    exact hall paths hdivergence

variable (hkeyed : m.Keyed) (hmarked : ∀ r, reference = some r → m.Marked filter (commits r))

include hkeyed hmarked

/-- While the records are marked, such a run leaves a scan nothing to do exactly when it overlooks
nothing. -/
theorem settles_iff : t.Settles ↔ ∀ p, ¬ t.Overlooks p := by
  obtain ⟨hreference, _, hafter, _, hskipped, hrecords, _⟩ := h.worked hstill hfilter
  unfold Settles Overlooks
  rw [hafter, hreference]
  exact h.attested.scan_idle_iff hskipped hkeyed hmarked hrecords

/-- Then the records are marked again, for the commit that is checked out. -/
theorem marks (hsettles : t.Settles) : m'.Keyed ∧
    ∀ r, t.result.lastIndexedCommit = some r → m'.Marked filter (commits r) := by
  obtain ⟨_, hlast, hafter, hkeeps, hskipped, hrecords, hflags⟩ := h.worked hstill hfilter
  unfold Settles at hsettles
  rw [hafter] at hsettles
  have hkeyed' := hkeeps hkeyed
  refine ⟨hkeyed', fun r hr => ?_⟩
  obtain rfl : c.head = r := Option.some.inj (hlast.symm.trans hr)
  exact h.attested.marked hkeyed' (fun p r hr =>
    h.attested.recorded_present hskipped hkeyed hmarked hrecords hsettles hr) hflags h.unignored

end Watched

end Turn

namespace History

variable {setting : RunSetting MemoryStore} {home : Location} {filter : FileFilter}
  {m : Manifest}

/-- The commit that the index reflects, as the last run has reported it. -/
def reference : {m : Manifest} → History setting home filter m → Option String
  | _, .start => none
  | _, .turn _ last => last.result.lastIndexedCommit

/-- All runs look for changes of the working tree, and version control answers truly. -/
def Watched (commits : String → String → Option ByteArray) :
    {m : Manifest} → History setting home filter m → Prop
  | _, .start => True
  | _, .turn past last => past.Watched commits ∧ ∃ c, last.Watched commits past.reference c

variable {commits : String → String → Option ByteArray} (h : History setting home filter m)
  (hstill : setting.env.Still) (hfilter : setting.config.filterOf setting.root = .ok filter)
  (hwatched : h.Watched commits)

include hstill hfilter hwatched

/-- Records without a flag are those of the commit that the index reflects, as long as scans have
nothing to do. -/
theorem marked (hsettled : h.Every Turn.Settles) :
    m.Keyed ∧ ∀ r, h.reference = some r → m.Marked filter (commits r) := by
  induction h with
  | start => exact ⟨Manifest.keyed_empty, fun r hr => by cases hr⟩
  | turn past last ih =>
    obtain ⟨hpast, c, hlast⟩ := hwatched
    obtain ⟨hkeyed, hmarked⟩ := ih hpast hsettled.1
    exact hlast.marks hstill hfilter hkeyed hmarked hsettled.2

/-- Through any history of edits, commits and checkouts, a scan has nothing to do after any of the
runs exactly when none of them overlooks a path. -/
theorem scans_settled_iff : h.Every Turn.Settles ↔ h.Every fun t => ∀ p, ¬ t.Overlooks p := by
  induction h with
  | start => exact Iff.rfl
  | turn past last ih =>
    obtain ⟨hpast, c, hlast⟩ := hwatched
    have hturn (hsettled : past.Every Turn.Settles) := by
      obtain ⟨hkeyed, hmarked⟩ := past.marked hstill hfilter hpast hsettled
      exact hlast.settles_iff hstill hfilter hkeyed hmarked
    constructor
    · rintro ⟨hsettled, hnow⟩
      exact ⟨(ih hpast).mp hsettled, (hturn hsettled).mp hnow⟩
    · rintro ⟨hunseen, hnow⟩
      have hsettled := (ih hpast).mpr hunseen
      exact ⟨hsettled, (hturn hsettled).mpr hnow⟩

end History

section Restored

def restoredView (d : Disk) : Git.View where
  isWorkTree := true
  head := some "new"
  commitExists _ := true
  mergeBase _ _ := .ok "new"
  diff := fun
    | .working _ => .ok (if (sampleFilter.inspect d "a.py").isPresent then .empty
      else Git.nulTerminated ["D", "a.py"])
    | _ => .ok .empty
  untracked := .ok .empty

def restoredSetting : RunSetting MemoryStore :=
  sampleSetting ⟨fun _ => true, fun _ _ => .ok []⟩ restoredView

def restoredTree : String → String → Option ByteArray :=
  fun _ p => if p ∈ ["a.py", "b.py"] then some "x".toUTF8 else none

def restoredCheckout : Checkout := ⟨"new", fun p => p ∈ ["a.py", "b.py"], []⟩

def restoredCheckpoint (commit : Option String) : Checkpoint :=
  { sampleCheckpoint "new" with lastIndexedCommit := commit }

variable {names : List String} (hnames : names = ["a.py", "b.py"] ∨ names = ["b.py"]) {d : Disk}

include hnames

theorem restored_ready : Ready "/w/.sift" sampleHome (reusedDisk names) ∧
    (reusedDisk names).Linkless := by
  rcases hnames with rfl | rfl
  · exact reused_ready _ (.inr (.inr rfl))
  · exact reused_ready _ (.inr (.inl rfl))

theorem restored_inspect (p : String) (hp : p ∈ ["a.py", "b.py"]) :
    sampleFilter.inspect (reusedDisk names) p =
      if p ∈ names then .present (Digest.contentHash "x".toUTF8) else .missing := by
  have hall (p : String) (hp : p = "a.py" ∨ p = "b.py") :
      sampleFilter.inspect (reusedDisk names) p =
        if p ∈ names then .present (Digest.contentHash "x".toUTF8) else .missing := by
    rcases hnames with rfl | rfl <;> rcases hp with rfl | rfl
    · exact reused_inspect _ _ (by decide) (by decide)
    · exact reused_inspect _ _ (by decide) (by decide)
    · decide
    · exact reused_inspect _ _ (by decide) (by decide)
  exact hall p (by simpa using hp)

theorem restored_bytes (p : String) (hp : p ∈ ["a.py", "b.py"]) :
    sampleFilter.bytesAt (reusedDisk names) p =
      if p ∈ names then some "x".toUTF8 else none := by
  have hall (p : String) (hp : p = "a.py" ∨ p = "b.py") :
      sampleFilter.bytesAt (reusedDisk names) p =
        if p ∈ names then some "x".toUTF8 else none := by
    rcases hnames with rfl | rfl <;> rcases hp with rfl | rfl <;> decide
  exact hall p (by simpa using hp)

variable (hsame : Same sampleHome (reusedDisk names) d)

include hsame

theorem restored_seen : sampleFilter.inspect d = sampleFilter.inspect (reusedDisk names) ∧
    sampleFilter.scan d = names ∧
    (∀ p ∈ ["a.py", "b.py"], sampleFilter.bytesAt d p =
      if p ∈ names then some "x".toUTF8 else none) ∧
    (sampleFilter.treeView d (restoredView d)).untracked = .ok [] ∧
    ∀ commit, (sampleFilter.treeView d (restoredView d)).diff (.working commit) =
      .ok (if "a.py" ∈ names then [] else [.deleted "a.py"]) := by
  obtain ⟨_, hlinks⟩ := restored_ready hnames
  have hlook : sampleFilter.inspect d = sampleFilter.inspect (reusedDisk names) :=
    funext fun p => (sample_apart _ hlinks).inspect hsame p
  refine ⟨hlook, ?_, fun p hp => ?_, ?_, fun commit => ?_⟩
  · rw [(sample_detached _ hlinks).walk d hsame]
    rcases hnames with rfl | rfl <;> decide
  · have heligible : sampleFilter.isEligible p = true := by
      have hall : ∀ p ∈ ["a.py", "b.py"], sampleFilter.isEligible p = true := by decide
      exact hall p hp
    rw [← restored_bytes hnames p hp]
    unfold FileFilter.bytesAt
    rw [sample_apart _ hlinks p heligible d hsame]
  · show Except.ok (reportedPaths .empty) = _
    decide +kernel
  · have hnone : DiffEntry.parse .empty = .ok [] := by decide +kernel
    have hgone : DiffEntry.parse (Git.nulTerminated ["D", "a.py"]) =
        .ok [.deleted "a.py"] := by decide +kernel
    show DiffEntry.parse (if (sampleFilter.inspect d "a.py").isPresent then .empty
      else Git.nulTerminated ["D", "a.py"]) = _
    rw [hlook, restored_inspect hnames "a.py" List.mem_cons_self]
    split
    · exact hnone
    · exact hgone

theorem restored_attested :
    sampleFilter.Attested d (restoredView d) restoredTree restoredCheckout := by
  obtain ⟨_, _, hbytes, huntracked, hdiff⟩ := restored_seen hnames hsame
  have htells (commit : String) : DiffEntry.Tells
      (if "a.py" ∈ names then [] else [.deleted "a.py"]) (restoredTree commit)
      (sampleFilter.trackedAt d restoredCheckout.tracked) := by
    refine ⟨fun p hdiffers => ?_, fun s t h => ?_, fun s t h => ?_⟩
    · unfold restoredTree FileFilter.trackedAt restoredCheckout at hdiffers
      by_cases hp : p ∈ ["a.py", "b.py"]
      · rw [if_pos hp, if_pos (decide_eq_true hp), hbytes p hp] at hdiffers
        -- only `a.py` may be missing
        have hgone : p ∉ names := fun hin => hdiffers (if_pos hin).symm
        rcases hnames with rfl | rfl
        · exact absurd hp hgone
        · have hp' : p = "a.py" := (List.mem_cons.mp hp).resolve_right hgone
          exact ⟨.deleted "a.py", by decide, by rw [hp']; decide⟩
      · rw [if_neg hp, if_neg (by simpa using hp)] at hdiffers
        exact absurd rfl hdiffers
    · split at h <;> simp at h
    · split at h <;> simp at h
  exact ⟨rfl, fun commit _ => ⟨_, hdiff commit, htells commit⟩, ⟨_, hdiff "HEAD", htells "new"⟩,
    huntracked, fun p hp => absurd hp List.not_mem_nil⟩

theorem restored_candidates {commit : Option String} {m : Manifest} (hkeyed : m.Keyed)
    (hrecorded : ∀ p, (m.get? p).isSome → p ∈ ["a.py", "b.py"])
    (hcommit : m.isEmpty = true ∨ commit = some "new") (p : String)
    (hp : p ∈ ((sampleFilter.treeView d (restoredView d)).candidates m commit
      .workingTree).mentioned) : p ∈ ["a.py", "b.py"] := by
  obtain ⟨_, hscan, _, huntracked, hdiff⟩ := restored_seen hnames hsame
  by_cases hempty : m.isEmpty = true
  · unfold TreeView.candidates at hp
    rw [hempty, Bool.true_or, if_pos rfl, ChangeSet.mem_mentioned] at hp
    simp only [TreeView.scanCandidates, ChangeSet.ofLists, mem_sortedPaths, Manifest.mem_deletedFrom,
      (Manifest.isEmpty_iff m).mp hempty] at hp
    have hin : p ∈ (sampleFilter.treeView d (restoredView d)).files := by simpa using hp
    rw [show (sampleFilter.treeView d (restoredView d)).files = names from hscan] at hin
    rcases hnames with rfl | rfl
    · exact hin
    · exact List.mem_cons_of_mem _ hin
  · have hcompared : (sampleFilter.treeView d (restoredView d)).Compared m commit
        (if "a.py" ∈ names then [] else [.deleted "a.py"]) [] :=
      ⟨by simpa using hempty, rfl, ⟨"new", hcommit.resolve_left hempty, rfl, hdiff "new"⟩,
        huntracked⟩
    obtain ⟨hadded, hmodified, hdeleted, hrenamed⟩ := ChangeSet.withRechecks_parts
      (DiffEntry.candidates (if "a.py" ∈ names then [] else [.deleted "a.py"]) [])
      m.divergedPaths
    have htold (h : p ∈ (DiffEntry.candidates (if "a.py" ∈ names then []
        else [.deleted "a.py"]) []).mentioned) : p ∈ ["a.py", "b.py"] := by
      rw [DiffEntry.mem_mentioned] at h
      split at h <;> simp_all [DiffEntry.paths]
    rw [hcompared.candidates, ChangeSet.mem_mentioned, hadded, hmodified, hdeleted] at hp
    simp only [hrenamed] at hp
    rcases hp with hp | (hp | ⟨hp, _⟩) | hp | hp
    · exact htold ((ChangeSet.mem_mentioned _ p).mpr (.inl hp))
    · exact htold ((ChangeSet.mem_mentioned _ p).mpr (.inr (.inl hp)))
    · obtain ⟨r, hr, _⟩ := (m.mem_divergedPaths hkeyed p).mp hp
      exact hrecorded p (by rw [hr]; rfl)
    · exact htold ((ChangeSet.mem_mentioned _ p).mpr (.inr (.inr (.inl hp))))
    · exact htold ((ChangeSet.mem_mentioned _ p).mpr (.inr (.inr (.inr hp))))

omit hsame

theorem restored_turn (commit : Option String) (m : Manifest) (hm : m.Storable) (hkeyed : m.Keyed)
    (hrecorded : ∀ p, (m.get? p).isSome → p ∈ ["a.py", "b.py"])
    (hcommit : m.isEmpty = true ∨ commit = some "new") :
    ∃ m' : Manifest, ∃ t : Turn restoredSetting sampleHome sampleFilter m m',
      Same sampleHome (reusedDisk names) t.before.disk ∧ m'.Storable ∧
      (∀ p, (m'.get? p).isSome → p ∈ ["a.py", "b.py"]) ∧
      t.Watched restoredTree commit restoredCheckout := by
  obtain ⟨hready, hlinks⟩ := restored_ready hnames
  have hbase : Same sampleHome (reusedDisk names) (reusedDisk names) := hready.same_refl
  have hview (d : Disk) (hsame : Same sampleHome (reusedDisk names) d) :
      restoredView d = restoredView (reusedDisk names) := by
    unfold restoredView
    rw [(sample_apart _ hlinks).inspect hsame]
  have hunmoved : restoredSetting.Unmoved sampleHome (reusedDisk names) := hview
  have hfiles := restored_candidates hnames hbase hkeyed hrecorded hcommit
  have hlook := restored_inspect hnames
  have hskipped : (confirm m (sampleFilter.inspect (reusedDisk names))
      ((sampleFilter.treeView (reusedDisk names) (restoredView (reusedDisk names))).candidates m
        commit .workingTree)).skipped = [] := by
    apply confirm_skips_nothing
    intro p hp
    rw [hlook p (hfiles p hp)]
    split <;> exact FileState.noConfusion
  have hleft : (restoredCheckpoint commit).Storable := ⟨rfl, nofun, sample_clock, sample_clock⟩
  obtain ⟨m', t, hbefore, hasked, hstorable, hclean, _, _, _, hrecords⟩ :=
    sample_turn restoredSetting.extractor restoredView (fun _ _ => ⟨_, rfl⟩)
      (.repository (.auto .workingTree)) (reusedDisk names) (restoredCheckpoint commit) m {} _ hready
      hlinks hleft hm (by
        intro d hsame
        obtain ⟨source, hdetection⟩ := hunmoved.detection (sample_detached _ hlinks) .workingTree d
          hsame m commit
        exact ⟨source, some "new", hdetection.trans (congrArg _ hskipped)⟩)
  have hsame : Same sampleHome (reusedDisk names) t.before.disk := by
    rw [hbefore]
    exact World.holding_same _ m hready
  have hkept (p : String) (hp : (m'.get? p).isSome) : p ∈ ["a.py", "b.py"] := by
    by_cases hin : p ∈ (confirm m (sampleFilter.inspect (reusedDisk names))
        ((sampleFilter.treeView (reusedDisk names) (restoredView (reusedDisk names))).candidates m
          commit .workingTree)).changes.mentioned
    · exact hfiles p (covers_mentioned m _ _ p (confirm_mentions m _ _ p hin))
    · exact hrecorded p ((hrecords.isSome_rest hin).symm.trans hp)
  refine ⟨m', t, hsame, hstorable, hkept, hasked, hclean, ?_, restored_attested hnames hsame, ?_,
    (sample_detached _ hlinks).of_same hsame, fun p hp => .inl (decide_eq_true (hkept p hp))⟩
  · refine ⟨some (restoredCheckpoint commit), ?_, rfl⟩
    rw [hbefore, show restoredSetting.stateDir = "/w/.sift" from sample_stateDir _ _]
    exact (World.load_holding _ m (sampleWorld (reusedDisk names) (restoredCheckpoint commit) m)
      hready hleft hm rfl).1
  · intro d hsame'
    exact (hview d (hsame.trans hsame')).trans (hview _ hsame).symm

variable {m m' : Manifest} {t : Turn restoredSetting sampleHome sampleFilter m m'}
  (hfound : Same sampleHome (reusedDisk names) t.before.disk)

include hfound

/-- A run there overlooks nothing if the files that it finds are recorded, or no file is. -/
theorem restored_unseen (h : m.isEmpty = true ∨ ∀ p ∈ names, (m.get? p).isSome) (p : String) :
    ¬ t.Overlooks p := by
  obtain ⟨_, hscan, _, _, hdiff⟩ := restored_seen hnames hfound
  rintro ⟨entries, new, hcompared, hover⟩
  have hrecorded := h.resolve_left (by rw [hcompared.recorded]; exact Bool.false_ne_true)
  rcases hover with hunreported | hhidden
  · have hin : p ∈ sampleFilter.scan t.before.disk := hunreported.found
    rw [hscan] at hin
    have hsome := hrecorded p hin
    rw [hunreported.unrecorded] at hsome
    cases hsome
  · obtain ⟨source, hrename, _⟩ := hhidden.target
    obtain ⟨commit, _, _, hentries⟩ := hcompared.commit
    have hsame := (hdiff commit).symm.trans hentries
    rw [← Except.ok.inj hsame] at hrename
    split at hrename <;> simp at hrename

/-- If a scan has nothing to do after a run there, the files that are there are recorded. -/
theorem restored_recorded {commit : Option String}
    (hwatched : t.Watched restoredTree commit restoredCheckout) (hsettles : t.Settles) (p : String)
    (hp : p ∈ ["a.py", "b.py"]) : (m'.get? p).isSome ↔ p ∈ names := by
  obtain ⟨hlook, hscan, _⟩ := restored_seen hnames hfound
  obtain ⟨_, _, hafter, _⟩ := hwatched.worked (sample_still _ _) sampleFilter_eq
  have hstate : t.tree.look p =
      if p ∈ names then .present (Digest.contentHash "x".toUTF8) else .missing :=
    (congrFun hlook p).trans (restored_inspect hnames p hp)
  unfold Turn.Settles at hsettles
  rw [hafter] at hsettles
  have hidle := TreeView.hashScan_idle_iff.mp hsettles p
  constructor
  · intro hsome
    by_contra hgone
    rw [hstate, if_neg hgone] at hidle
    have hnone : m'.hashAt p = none := by
      rcases hidle (.inr hsome) with hright | hread
      · rw [Manifest.Right, hstate, if_neg hgone] at hright
        exact hright
      · cases hread
    rw [(m'.hashAt_none p).mp hnone] at hsome
    cases hsome
  · intro hin
    have hfiles : p ∈ t.tree.files := by
      rw [show t.tree.files = names from hscan]
      exact hin
    rw [Manifest.Right, hstate, if_pos hin] at hidle
    have hhash : m'.hashAt p = some (Digest.contentHash "x".toUTF8) :=
      (hidle (.inl hfiles)).resolve_right FileState.noConfusion
    obtain ⟨r, hr, _⟩ := Option.map_eq_some_iff.mp hhash
    rw [hr]
    rfl

omit hnames hfound

/-- The files are indexed, one of them is gone when the second run is made, and is there again when
the third one is. -/
theorem restored_history : ∃ m₁ m₂ m₃ : Manifest,
    ∃ t₁ : Turn restoredSetting sampleHome sampleFilter .empty m₁,
    ∃ t₂ : Turn restoredSetting sampleHome sampleFilter m₁ m₂,
    ∃ t₃ : Turn restoredSetting sampleHome sampleFilter m₂ m₃,
      (Same sampleHome (reusedDisk ["a.py", "b.py"]) t₁.before.disk ∧
        t₁.Watched restoredTree none restoredCheckout) ∧
      (Same sampleHome (reusedDisk ["b.py"]) t₂.before.disk ∧
        t₂.Watched restoredTree (some "new") restoredCheckout) ∧
      (Same sampleHome (reusedDisk ["a.py", "b.py"]) t₃.before.disk ∧
        t₃.Watched restoredTree (some "new") restoredCheckout) ∧
      (((History.start.turn t₁).turn t₂).turn t₃).Watched restoredTree := by
  have hreports {m m' : Manifest} {t : Turn restoredSetting sampleHome sampleFilter m m'}
      {commit : Option String} (h : t.Watched restoredTree commit restoredCheckout) :
      t.result.lastIndexedCommit = some "new" ∧ (m.Keyed → m'.Keyed) := by
    obtain ⟨_, hlast, _, hkeeps, _⟩ := h.worked (sample_still _ _) sampleFilter_eq
    exact ⟨hlast, hkeeps⟩
  obtain ⟨m₁, t₁, hsame₁, hm₁, hrecorded₁, hwatched₁⟩ := restored_turn (.inl rfl) none .empty
    Manifest.empty_storable Manifest.keyed_empty (fun p hp => by cases hp) (.inl (by decide))
  obtain ⟨hlast₁, hkeeps₁⟩ := hreports hwatched₁
  have hkeyed₁ := hkeeps₁ Manifest.keyed_empty
  obtain ⟨m₂, t₂, hsame₂, hm₂, hrecorded₂, hwatched₂⟩ := restored_turn (.inr rfl) (some "new") m₁
    hm₁ hkeyed₁ hrecorded₁ (.inr rfl)
  obtain ⟨hlast₂, hkeeps₂⟩ := hreports hwatched₂
  obtain ⟨m₃, t₃, hsame₃, _, _, hwatched₃⟩ := restored_turn (.inl rfl) (some "new") m₂ hm₂
    (hkeeps₂ hkeyed₁) hrecorded₂ (.inr rfl)
  refine ⟨m₁, m₂, m₃, t₁, t₂, t₃, ⟨hsame₁, hwatched₁⟩, ⟨hsame₂, hwatched₂⟩, ⟨hsame₃, hwatched₃⟩,
    ⟨⟨trivial, restoredCheckout, hwatched₁⟩, restoredCheckout, ?_⟩, restoredCheckout, ?_⟩
  · rw [show (History.start.turn t₁).reference = some "new" from hlast₁]
    exact hwatched₂
  · rw [show ((History.start.turn t₁).turn t₂).reference = some "new" from hlast₂]
    exact hwatched₃

/-- The restored file has no record, and version control tells nothing of it, as it is that of the
commit. -/
theorem restored_unrecorded : ∃ m₁ m₂ m₃ : Manifest,
    ∃ t₁ : Turn restoredSetting sampleHome sampleFilter .empty m₁,
    ∃ t₂ : Turn restoredSetting sampleHome sampleFilter m₁ m₂,
    ∃ t₃ : Turn restoredSetting sampleHome sampleFilter m₂ m₃,
      Same sampleHome (reusedDisk ["a.py", "b.py"]) t₁.before.disk ∧
      Same sampleHome (reusedDisk ["b.py"]) t₂.before.disk ∧
      Same sampleHome (reusedDisk ["a.py", "b.py"]) t₃.before.disk ∧
      (((History.start.turn t₁).turn t₂).turn t₃).Watched restoredTree ∧
      t₁.Settles ∧ t₂.Settles ∧ ¬ t₃.Settles := by
  obtain ⟨m₁, m₂, m₃, t₁, t₂, t₃, ⟨hsame₁, hwatched₁⟩, ⟨hsame₂, hwatched₂⟩, ⟨hsame₃, hwatched₃⟩,
    hwatched⟩ := restored_history
  have hstill := sample_still ⟨fun _ => true, fun _ _ => .ok []⟩ restoredView
  -- the first run scans, and the second is told of the file that is gone
  have hsettles₁ : t₁.Settles := by
    rw [hwatched₁.settles_iff hstill sampleFilter_eq Manifest.keyed_empty nofun]
    exact restored_unseen (.inl rfl) hsame₁ (.inl (by decide))
  obtain ⟨hkeyed₁, hmarked₁⟩ :=
    hwatched₁.marks hstill sampleFilter_eq Manifest.keyed_empty nofun hsettles₁
  have hlast₁ := (hwatched₁.worked hstill sampleFilter_eq).2.1
  rw [hlast₁] at hmarked₁
  have hsettles₂ : t₂.Settles := by
    rw [hwatched₂.settles_iff hstill sampleFilter_eq hkeyed₁ hmarked₁]
    refine restored_unseen (.inr rfl) hsame₂ (.inr fun p hp => ?_)
    have hin := List.mem_cons_of_mem "a.py" hp
    exact (restored_recorded (.inl rfl) hsame₁ hwatched₁ hsettles₁ p hin).mpr hin
  obtain ⟨hkeyed₂, hmarked₂⟩ :=
    hwatched₂.marks hstill sampleFilter_eq hkeyed₁ hmarked₁ hsettles₂
  rw [(hwatched₂.worked hstill sampleFilter_eq).2.1] at hmarked₂
  refine ⟨m₁, m₂, m₃, t₁, t₂, t₃, hsame₁, hsame₂, hsame₃, hwatched, hsettles₁, hsettles₂, ?_⟩
  rw [hwatched₃.settles_iff hstill sampleFilter_eq hkeyed₂ hmarked₂, Classical.not_forall]
  -- the third has no answer that tells of it
  obtain ⟨hlook, hscan, _, huntracked, hdiff⟩ := restored_seen (.inl rfl) hsame₃
  have hrecorded := restored_recorded (.inr rfl) hsame₂ hwatched₂ hsettles₂
  have hfull : m₂.isEmpty = false := by
    rw [← Bool.not_eq_true, Manifest.isEmpty_iff]
    intro hnone
    have hsome := (hrecorded "b.py" (by decide)).mpr (by decide)
    rw [hnone] at hsome
    cases hsome
  have hnone : m₂.get? "a.py" = none := by
    rw [← Option.not_isSome_iff_eq_none, hrecorded "a.py" (by decide)]
    decide
  refine ⟨"a.py", not_not.mpr ⟨[], [], ⟨hfull, rfl, ⟨"new", ?_, rfl, hdiff "new"⟩, huntracked⟩,
    .inl ⟨?_, ?_, hnone, List.not_mem_nil, nofun⟩⟩⟩
  · exact (hwatched₃.worked hstill sampleFilter_eq).1
  · rw [show t₃.tree.files = ["a.py", "b.py"] from hscan]
    exact List.mem_cons_self
  · rw [show t₃.tree.look = _ from hlook, restored_inspect (.inl rfl) "a.py" List.mem_cons_self]
    rfl

/-- The condition at that history. -/
theorem restored_settled : ∃ m₁ m₂ m₃ : Manifest,
    ∃ t₁ : Turn restoredSetting sampleHome sampleFilter .empty m₁,
    ∃ t₂ : Turn restoredSetting sampleHome sampleFilter m₁ m₂,
    ∃ t₃ : Turn restoredSetting sampleHome sampleFilter m₂ m₃,
      (((History.start.turn t₁).turn t₂).turn t₃).Watched restoredTree ∧
      ((((History.start.turn t₁).turn t₂).turn t₃).Every Turn.Settles ↔
        (((History.start.turn t₁).turn t₂).turn t₃).Every fun t => ∀ p, ¬ t.Overlooks p) := by
  obtain ⟨m₁, m₂, m₃, t₁, t₂, t₃, _, _, _, hwatched⟩ := restored_history
  exact ⟨m₁, m₂, m₃, t₁, t₂, t₃, hwatched,
    History.scans_settled_iff _ (sample_still _ _) sampleFilter_eq hwatched⟩

end Restored

end CodeIndex
