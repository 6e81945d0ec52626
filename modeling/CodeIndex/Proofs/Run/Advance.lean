import CodeIndex.Proofs.Run.Execute
import CodeIndex.Store.Memory

/-!
What the records hold when the index comes to reflect another commit. The decision looks at
failures alone, so the records hold the changes between the two commits exactly when the run got to
every path of them.
-/

namespace CodeIndex

open StateDir

namespace FileFilter

def bytesAt (f : FileFilter) (d : Disk) (p : String) : Option ByteArray :=
  match d.stat (Path.join f.root p) with
  | .ok (.file content _) => some content
  | _ => none

def Indexes (f : FileFilter) (p : String) (content : ByteArray) : Prop :=
  f.isEligible p = true ∧ f.withinSize content.size = true ∧ Digest.isBinary content = false

/-- The records hold what changed between two trees as far as a disk has the newer one: a file to
be indexed is recorded with the hash of its bytes, and a file that is gone is not recorded. -/
structure Reflects (f : FileFilter) (d : Disk) (old new : String → Option ByteArray)
    (m : Manifest) : Prop where
  changed : ∀ p content, old p ≠ new p → new p = some content → f.bytesAt d p = some content →
    f.Indexes p content → ∃ r, m.get? p = some r ∧ r.contentHash = Digest.contentHash content
  removed : ∀ p, (old p).isSome → new p = none → f.bytesAt d p = none → m.get? p = none

/-- The path changed between two trees, the disk has it as in the newer one, and its file, if there
is one, may be indexed. -/
structure Concerns (f : FileFilter) (d : Disk) (old new : String → Option ByteArray)
    (p : String) : Prop where
  differs : old p ≠ new p
  there : f.bytesAt d p = new p
  indexes : ∀ content, new p = some content → f.Indexes p content

def Right (f : FileFilter) (d : Disk) (m : Manifest) (p : String) : Prop :=
  m.hashAt p = (f.bytesAt d p).map Digest.contentHash

variable {f : FileFilter} {d : Disk}

theorem reflects_iff (old new : String → Option ByteArray) (m : Manifest) :
    f.Reflects d old new m ↔ ∀ p, f.Concerns d old new p → f.Right d m p := by
  unfold Right
  constructor
  · intro h p hp
    rw [hp.there]
    -- a path that is gone has no record, and one that is there a record of its content
    cases hnew : new p with
    | none =>
      have hold : (old p).isSome := by
        rw [Option.isSome_iff_ne_none, ← hnew]
        exact hp.differs
      rw [Option.map_none, Manifest.hashAt_none]
      exact h.removed p hold hnew (hp.there.trans hnew)
    | some content =>
      obtain ⟨r, hr, hhash⟩ := h.changed p content hp.differs hnew (hp.there.trans hnew)
        (hp.indexes content hnew)
      rw [Manifest.hashAt, hr, Option.map_some, Option.map_some, hhash]
  · intro h
    refine ⟨fun p content hdiffers hnew hthere hindexes => ?_, fun p hold hnew hthere => ?_⟩
    · have hright := h p ⟨hdiffers, hthere.trans hnew.symm, fun content' h' => by
        rw [hnew] at h'
        injection h' with h'
        exact h' ▸ hindexes⟩
      rw [hthere, Manifest.hashAt] at hright
      exact Option.map_eq_some_iff.mp hright
    · have hdiffers : old p ≠ new p := by
        intro heq
        rw [heq, hnew] at hold
        cases hold
      have hright := h p ⟨hdiffers, hthere.trans hnew.symm, fun content' h' => by
        rw [hnew] at h'
        cases h'⟩
      rw [hthere, Option.map_none, Manifest.hashAt_none] at hright
      exact hright

/-- What is seen of a file that may be indexed is the hash of its bytes. -/
theorem inspect_bytes (p : String) (content : ByteArray) (hbytes : f.bytesAt d p = some content)
    (hindexes : f.Indexes p content) : f.inspect d p = .present (Digest.contentHash content) := by
  unfold bytesAt at hbytes
  split at hbytes
  · rename_i found modified hstat
    injection hbytes with hbytes
    subst hbytes
    exact (inspect_present p _).mpr ⟨hindexes.1, found, modified, hstat, hindexes.2.1, hindexes.2.2,
      rfl⟩
  · cases hbytes

theorem inspect_absent (p : String) (hbytes : f.bytesAt d p = none) (hash : ContentHash) :
    f.inspect d p ≠ .present hash := by
  intro hlook
  obtain ⟨_, content, modified, hstat, _⟩ := (inspect_present p hash).mp hlook
  unfold bytesAt at hbytes
  rw [hstat] at hbytes
  cases hbytes

/-- The record of a concerned path is right when it has the hash that is seen, or there is none and
none is seen. -/
theorem right_iff (old new : String → Option ByteArray) (m : Manifest) (p : String)
    (hp : f.Concerns d old new p) :
    f.Right d m p ↔ (∃ hash, f.inspect d p = .present hash ∧ m.hashAt p = some hash) ∨
      (f.bytesAt d p = none ∧ m.hashAt p = none) := by
  unfold Right
  cases hbytes : f.bytesAt d p with
  | none =>
    have habsent := inspect_absent p hbytes
    constructor
    · exact fun h => .inr ⟨rfl, h⟩
    · rintro (⟨hash, hlook, _⟩ | ⟨_, h⟩)
      · exact absurd hlook (habsent hash)
      · exact h
  | some content =>
    have hlook := inspect_bytes p content hbytes (hp.indexes content (hp.there.symm.trans hbytes))
    constructor
    · exact fun h => .inl ⟨_, hlook, h⟩
    · rintro (⟨hash, hlook', h⟩ | ⟨h, _⟩)
      · rw [hlook] at hlook'
        injection hlook' with hlook'
        rw [h, ← hlook']
        rfl
      · cases h

end FileFilter

namespace RunSetting

open RunState FileFilter

variable {σ : Type} (setting : RunSetting σ) (filter : FileFilter) (d : Disk)

/-- A run that is asked for something gets to a path: the path is among its candidates, as they are
sorted, or the record of the path was right before. A full run gets to the files of its walk and to
the paths without a file. -/
def Reaches (m : Manifest) (reference : Option String) : RunRequest → String → Prop
  | .repository .full, p => p ∈ filter.scan d ∨ filter.bytesAt d p = none
  | .repository (.auto target), p =>
    (Sorting.ofCandidates m (filter.inspect d)
      ((setting.treeView filter d).candidates m reference target)).Covers p ∨ filter.Right d m p
  | .changeset changes, p =>
    (Sorting.ofCandidates m (filter.inspect d) changes).Covers p ∨ filter.Right d m p

variable {setting filter d} {m m' : Manifest} {old new : String → Option ByteArray} {p : String}

/-- Confirmed candidates make the records right that they cover, and leave the others alone. -/
theorem confirmed_right_iff (candidates : ChangeSet)
    (hskipped : (confirm m (filter.inspect d) candidates).skipped = [])
    (hwork : Reworked (filter.inspect d) m m'
      (confirm m (filter.inspect d) candidates).changes.Writes
      (confirm m (filter.inspect d) candidates).changes.Removes
      fun p => p ∈ (confirm m (filter.inspect d) candidates).changes.mentioned)
    (hp : filter.Concerns d old new p) :
    filter.Right d m' p ↔
      (Sorting.ofCandidates m (filter.inspect d) candidates).Covers p ∨ filter.Right d m p := by
  have hfounded := confirm_founded m (filter.inspect d) candidates
  have hmentions := confirm_mentions m (filter.inspect d) candidates p
  have hcovers := confirm_covers m (filter.inspect d) candidates p
  rw [hskipped] at hcovers
  generalize confirm m (filter.inspect d) candidates = confirmed at *
  -- a path that is mentioned comes out right: a file is written, and none is removed
  have hmentioned (h : p ∈ confirmed.changes.mentioned) : filter.Right d m' p := by
    rw [right_iff old new m' p hp]
    rcases (ChangeSet.mentioned_iff _ p).mp h with hw | hr
    · exact .inl (hwork.kept p hw)
    · refine .inr ⟨?_, hwork.dropped p hr⟩
      cases hbytes : filter.bytesAt d p with
      | none => rfl
      | some content =>
        have hlook := inspect_bytes p content hbytes
          (hp.indexes content (hp.there.symm.trans hbytes))
        have hgone : (filter.inspect d p).isPresent = false := by
          rcases hr with hr | ⟨e, he, rfl⟩
          · exact (hfounded.deleted p hr).2
          · exact (hfounded.renamed e he).2.1
        rw [hlook] at hgone
        cases hgone
  have hother (h : p ∉ confirmed.changes.mentioned) :
      filter.Right d m' p ↔ filter.Right d m p := by
    unfold Right
    rw [hwork.rest p h]
  by_cases hin : p ∈ confirmed.changes.mentioned
  · exact ⟨fun _ => .inl (hmentions hin), fun _ => hmentioned hin⟩
  · rw [hother hin]
    refine ⟨.inr, ?_⟩
    rintro (hc | h)
    · rcases hcovers hc with hsame | hskip | h
      · rw [right_iff old new m p hp]
        rcases (compareRecord_same _ _).mp hsame with ⟨r, hash, hr, hlook, hhash⟩ | ⟨hr, hlook⟩
        · exact .inl ⟨hash, hlook, by rw [Manifest.hashAt, hr, ← hhash]; rfl⟩
        · refine .inr ⟨?_, (Manifest.hashAt_none m p).mpr hr⟩
          cases hbytes : filter.bytesAt d p with
          | none => rfl
          | some content =>
            have hthere := inspect_bytes p content hbytes
              (hp.indexes content (hp.there.symm.trans hbytes))
            rcases hlook with hlook | hlook <;> rw [hthere] at hlook <;> cases hlook
      · exact absurd hskip List.not_mem_nil
      · exact absurd h hin
    · exact h

/-- A full run makes the records right of the files of its walk, and drops the others. -/
theorem full_right_iff (t : TreeView) (hlook : t.look = filter.inspect d)
    (hfiles : t.files = filter.scan d) (hskipped : (t.detectAll m).skipped = [])
    (hwork : Reworked (filter.inspect d) m m' (t.detectAll m).changes.Writes
      (t.detectAll m).changes.Removes fun p => p ∈ (t.detectAll m).changes.mentioned)
    (hp : filter.Concerns d old new p) :
    filter.Right d m' p ↔ p ∈ filter.scan d ∨ filter.bytesAt d p = none := by
  obtain ⟨hadded, hmodified, hdeleted, hrenamed, hskip⟩ := t.detectAll_parts m
  rw [right_iff old new m' p hp]
  cases hbytes : filter.bytesAt d p with
  | none =>
    have habsent := inspect_absent p hbytes
    refine ⟨fun _ => .inr rfl, fun _ => .inr ⟨rfl, ?_⟩⟩
    by_cases hin : p ∈ (t.detectAll m).changes.mentioned
    · rcases (ChangeSet.mentioned_iff _ p).mp hin with hw | hr
      · obtain ⟨hash, hthere, _⟩ := hwork.kept p hw
        exact absurd hthere (habsent hash)
      · exact hwork.dropped p hr
    · rw [hwork.rest p hin, Manifest.hashAt_none]
      -- a record without a file is removed
      cases hrecord : m.get? p with
      | none => rfl
      | some r =>
        refine absurd ((ChangeSet.mem_mentioned _ p).mpr (.inr (.inr (.inl
          ((hdeleted p).mpr ⟨by rw [hrecord]; rfl, ?_⟩))))) hin
        rintro ⟨hfile, hthere | hunreadable⟩
        · obtain ⟨hash, hthere⟩ := (FileState.isPresent_iff _).mp hthere
          rw [hlook] at hthere
          exact habsent hash hthere
        · have hmem := (hskip p).mpr ⟨hfile, hunreadable⟩
          rw [hskipped] at hmem
          exact absurd hmem List.not_mem_nil
  | some content =>
    have hthere := inspect_bytes p content hbytes
      (hp.indexes content (hp.there.symm.trans hbytes))
    have hpresent : (t.look p).isPresent = true := by
      rw [hlook, hthere]
      rfl
    rw [← hfiles]
    by_cases hfile : p ∈ t.files
    · have hw : (t.detectAll m).changes.Writes p := by
        cases hrecord : m.get? p with
        | none => exact .inl ((hadded p).mpr ⟨hfile, hpresent, hrecord⟩)
        | some r =>
          exact .inr (.inl ((hmodified p).mpr ⟨hfile, hpresent, by rw [hrecord]; rfl⟩))
      exact ⟨fun _ => .inl hfile, fun _ => .inl (hwork.kept p hw)⟩
    · refine ⟨?_, fun h => (h.elim hfile fun h => by cases h).elim⟩
      -- a file outside the walk is not recorded, or its record is removed
      have hnone : m'.hashAt p = none := by
        by_cases hin : p ∈ (t.detectAll m).changes.mentioned
        · rcases (ChangeSet.mem_mentioned _ p).mp hin with h | h | h | ⟨e, he, _⟩
          · exact absurd ((hadded p).mp h).1 hfile
          · exact absurd ((hmodified p).mp h).1 hfile
          · exact hwork.dropped p (.inl h)
          · rw [hrenamed] at he
            exact absurd he List.not_mem_nil
        · rw [hwork.rest p hin, Manifest.hashAt_none]
          cases hrecord : m.get? p with
          | none => rfl
          | some r =>
            exact absurd ((ChangeSet.mem_mentioned _ p).mpr (.inr (.inr (.inl
              ((hdeleted p).mpr ⟨by rw [hrecord]; rfl, fun h => hfile h.1⟩))))) hin
      rintro (⟨hash, _, h⟩ | ⟨h, _⟩)
      · rw [hnone] at h
        cases h
      · cases h

/-- After a run without failures the record of a path is right exactly when the run got to it. -/
theorem finished_right_iff {home : Location} {c : RunContext} {request : RunRequest} {w : World σ}
    {s : RunState σ}
    (hfinished : setting.Finished home filter (filter.inspect w.disk) c
      (setting.detection filter w.disk c.manifest c.reference request) w s)
    (hclean : s.Clean) (hp : filter.Concerns w.disk old new p) :
    filter.Right w.disk s.manifest p ↔
      setting.Reaches filter w.disk c.manifest c.reference request p := by
  have hskipped := hfinished.skipped hclean
  have hrecords := hfinished.records hclean
  rcases request with mode | changes
  · cases mode with
    | full =>
      exact full_right_iff (setting.treeView filter w.disk) rfl rfl hskipped hrecords hp
    | auto target =>
      obtain ⟨source, hdetect⟩ :=
        (setting.treeView filter w.disk).detect_confirm c.manifest c.reference target
      have hdetection : setting.detection filter w.disk c.manifest c.reference
          (.repository (.auto target)) = _ := hdetect
      rw [hdetection] at hskipped hrecords
      exact confirmed_right_iff _ hskipped hrecords hp
  · exact confirmed_right_iff changes hskipped hrecords hp

/-- A run that makes the index reflect another commit leaves the records right for what changed
between the two exactly when it got to every path of it. The contents of the two commits are any
two trees. -/
theorem advance_reflects_iff (setting : RunSetting σ) (filter : FileFilter) (home : Location)
    (hstill : setting.env.Still)
    (hfilter : setting.config.filterOf setting.root = .ok filter) (request : RunRequest)
    (w w₁ w' : World σ) (c : RunContext) (report : RunReport σ) (res : IndexResult) (r h : String)
    (old new : String → Option ByteArray)
    (hready : Ready setting.stateDir home w.disk) (hapart : filter.Apart home w.disk)
    (hclock : w.clock.Valid) (hopen : setting.openRun.run w = (.ok c, w₁))
    (hrun : (setting.perform request).run w = (.ok report, w')) (hres : report.outcome = .ok res)
    (href : c.reference = some r) (hlast : res.lastIndexedCommit = some h) (hne : r ≠ h) :
    ∃ m', w'.loadManifest setting.stateDir = .ok m' ∧
      (filter.Reflects w₁.disk old new m' ↔
        ∀ p, filter.Concerns w₁.disk old new p →
          setting.Reaches filter w₁.disk c.manifest (some r) request p) := by
  obtain ⟨res', hperformed⟩ := runs_ok _ _ _
    (perform_opened setting filter hstill hfilter request w w₁ c hready hapart hopen) hrun
  have heq : res' = res := Except.ok.inj (hperformed.outcome.symm.trans hres)
  subst heq
  rcases hperformed.ended with ⟨_, hkept, _⟩ | hfinished
  · -- an aborted run leaves the commit as it was
    rw [hlast, href] at hkept
    exact absurd (Option.some.inj hkept).symm hne
  · have hclean : report.state.Clean := by
      by_cases hclean : report.state.Clean
      · exact hclean
      · have hkept := hperformed.last.trans hfinished.last
        rw [if_neg hclean, hlast, href] at hkept
        exact absurd (Option.some.inj hkept).symm hne
    refine ⟨report.state.manifest, hperformed.loaded setting hfinished hready hclock, ?_⟩
    rw [reflects_iff, ← href]
    constructor
    · exact fun hall p hp => (finished_right_iff hfinished hclean hp).mp (hall p hp)
    · exact fun hall p hp => (finished_right_iff hfinished hclean hp).mpr (hall p hp)

end RunSetting

section Overlooked

open RunSetting

def overlookedDisk : Disk := sampleDisk [("b.py", "x")]

def overlookedSetting : RunSetting MemoryStore :=
  sampleSetting ⟨fun _ => true, fun _ _ => .ok []⟩ fun _ =>
    { Git.View.outside with
      isWorkTree := true
      head := some "new" }

def overlookedWorld : World MemoryStore :=
  sampleWorld overlookedDisk (sampleCheckpoint "old") .empty

def overlookedTree : String → Option ByteArray :=
  fun p => if p = "b.py" then some "x".toUTF8 else none

theorem overlooked_ready : Ready "/w/.sift" sampleHome overlookedDisk := by
  apply sample_ready <;> decide

theorem overlooked_linkless : overlookedDisk.Linkless :=
  Disk.linkless_of_all _ (by decide)

theorem overlooked_open :
    Ready overlookedSetting.stateDir sampleHome overlookedWorld.disk ∧
      sampleFilter.Apart sampleHome overlookedWorld.disk ∧
      ¬ overlookedSetting.Barred sampleHome overlookedWorld :=
  sample_open _ _ _ _ _ overlookedWorld rfl rfl overlooked_ready overlooked_linkless
    (sampleCheckpoint_storable "old") Manifest.empty_storable

/-- The run finds nothing to do, and makes the index reflect the commit that is checked out. -/
theorem overlooked_run : ∃ c w₁ report w' res,
    overlookedSetting.openRun.run overlookedWorld = (.ok c, w₁) ∧
    (overlookedSetting.perform (.changeset {})).run overlookedWorld = (.ok report, w') ∧
    report.outcome = .ok res ∧ c.reference = some "old" ∧ res.lastIndexedCommit = some "new" ∧
    c.manifest = .empty ∧ StateDir.Same sampleHome overlookedWorld.disk w₁.disk ∧
    overlookedSetting.Finished sampleHome sampleFilter (sampleFilter.inspect w₁.disk) c
      (overlookedSetting.detection sampleFilter w₁.disk c.manifest c.reference (.changeset {})) w₁
      report.state ∧ report.state.Clean ∧
    w'.loadManifest overlookedSetting.stateDir = .ok report.state.manifest := by
  obtain ⟨hready, hapart, hfree⟩ := overlooked_open
  obtain ⟨c, w₁, report, w', res, hopen, hrun, hperformed, hfinished, hclean⟩ :=
    perform_idle overlookedSetting sampleFilter (sample_still _ _) sampleFilter_eq (.changeset {})
      overlookedWorld hready hapart hfree rfl fun _ _ _ => ⟨rfl, rfl⟩
  have hopened := hperformed.opened
  obtain ⟨hcheckpoint, hmanifest⟩ := World.load_holding (sampleCheckpoint "old") .empty
    overlookedWorld overlooked_ready (sampleCheckpoint_storable "old") Manifest.empty_storable rfl
  have hdir : overlookedSetting.stateDir = "/w/.sift" := sample_stateDir _ _
  rw [← hdir] at hcheckpoint hmanifest
  have href : c.reference = some "old" := by
    obtain ⟨previous, hprevious, href⟩ := hopened.reference
    rw [hcheckpoint] at hprevious
    rw [href, ← Except.ok.inj hprevious]
    rfl
  have hempty : c.manifest = .empty := by
    have hload := hopened.manifest
    rw [hmanifest] at hload
    exact (Except.ok.inj hload).symm
  have hlast : res.lastIndexedCommit = some "new" := by
    rw [hperformed.last, hfinished.last, if_pos hclean]
    rfl
  exact ⟨c, w₁, report, w', res, hopen, hrun, hperformed.outcome, href, hlast, hempty,
    hopened.same, hfinished, hclean,
    hperformed.loaded overlookedSetting hfinished hready sample_clock⟩

/-- The index comes to reflect the later commit without a record of its file. -/
theorem changeset_overlooks : ∃ c w₁ report w' res m',
    overlookedSetting.openRun.run overlookedWorld = (.ok c, w₁) ∧
    (overlookedSetting.perform (.changeset {})).run overlookedWorld = (.ok report, w') ∧
    report.outcome = .ok res ∧ c.reference = some "old" ∧ res.lastIndexedCommit = some "new" ∧
    w'.loadManifest overlookedSetting.stateDir = .ok m' ∧
    ¬ sampleFilter.Reflects w₁.disk (fun _ => none) overlookedTree m' := by
  obtain ⟨c, w₁, report, w', res, hopen, hrun, hres, href, hlast, hempty, hsame, hfinished, hclean,
    hloaded⟩ := overlooked_run
  refine ⟨c, w₁, report, w', res, _, hopen, hrun, hres, href, hlast, hloaded, ?_⟩
  have heligible : sampleFilter.isEligible "b.py" = true := by decide
  have hbytes : sampleFilter.bytesAt w₁.disk "b.py" = some "x".toUTF8 := by
    have hbase : sampleFilter.bytesAt overlookedDisk "b.py" = some "x".toUTF8 := by decide
    unfold FileFilter.bytesAt at *
    rw [sample_apart overlookedDisk overlooked_linkless "b.py" heligible w₁.disk
      ((World.holding_same _ _ overlooked_ready).trans hsame)]
    exact hbase
  have hindexes : sampleFilter.Indexes "b.py" "x".toUTF8 :=
    ⟨heligible, by decide +kernel, by decide +kernel⟩
  intro hreflects
  obtain ⟨r, hr, _⟩ := hreflects.changed "b.py" "x".toUTF8 (by decide) (if_pos rfl) hbytes hindexes
  -- nothing was asked for, so the records are those of before: none
  have hnone := (hfinished.records hclean).rest "b.py" List.not_mem_nil
  rw [hempty, Manifest.hashAt, hr, Manifest.hashAt, Manifest.get?_empty] at hnone
  cases hnone

/-- The condition at that run: it does not get to the file. -/
theorem overlooked_condition : ∃ c w₁ report w' res m',
    overlookedSetting.openRun.run overlookedWorld = (.ok c, w₁) ∧
    (overlookedSetting.perform (.changeset {})).run overlookedWorld = (.ok report, w') ∧
    report.outcome = .ok res ∧ c.reference = some "old" ∧ res.lastIndexedCommit = some "new" ∧
    w'.loadManifest overlookedSetting.stateDir = .ok m' ∧
    (sampleFilter.Reflects w₁.disk (fun _ => none) overlookedTree m' ↔
      ∀ p, sampleFilter.Concerns w₁.disk (fun _ => none) overlookedTree p →
        overlookedSetting.Reaches sampleFilter w₁.disk c.manifest (some "old") (.changeset {})
          p) := by
  obtain ⟨c, w₁, report, w', res, hopen, hrun, hres, href, hlast, _⟩ := overlooked_run
  obtain ⟨hready, hapart, _⟩ := overlooked_open
  obtain ⟨m', hload, hiff⟩ := advance_reflects_iff overlookedSetting sampleFilter sampleHome
    (sample_still _ _) sampleFilter_eq (.changeset {}) overlookedWorld w₁ w' c report res "old"
    "new" (fun _ => none) overlookedTree hready hapart sample_clock hopen hrun hres href hlast
    (by decide)
  exact ⟨c, w₁, report, w', res, m', hopen, hrun, hres, href, hlast, hload, hiff⟩

end Overlooked

end CodeIndex
