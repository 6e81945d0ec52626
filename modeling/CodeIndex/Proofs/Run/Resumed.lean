import CodeIndex.Proofs.Run.Cancelled
import CodeIndex.Proofs.Run.Forced
import CodeIndex.Proofs.Run.Interrupted
import CodeIndex.Proofs.Run.Repeat

/-!
Runs that go on with interrupted ones, on a tree that stays as it is. Nothing looks up the files
that a checkpoint lists as processed. A run that detects changes leaves them alone all the same:
they were recorded as they are before they were listed, so the detection finds nothing to do there.
A run over everything does not, and sends the texts of these files once more.
-/

namespace CodeIndex

open StateDir

def ChangeSet.without (changes : ChangeSet) (look : String → FileState) (p : String) : FileState :=
  if p ∈ changes.deleted ++ changes.renamed.map (·.1) then .missing else look p

namespace ChangeSet

variable {changes : ChangeSet} {look : String → FileState}

theorem mem_removed (p : String) :
    p ∈ changes.deleted ++ changes.renamed.map (·.1) ↔ changes.Removes p := by
  rw [List.mem_append, List.mem_map]
  exact or_congr Iff.rfl ⟨fun ⟨e, he, h⟩ => ⟨e, he, h.symm⟩, fun ⟨e, he, h⟩ => ⟨e, he, h.symm⟩⟩

theorem without_gone {p : String} (hp : changes.Removes p) :
    (changes.without look p).isPresent = false := by
  unfold without
  rw [if_pos ((mem_removed p).mpr hp)]
  rfl

theorem without_present {p : String} {hash : ContentHash}
    (h : changes.without look p = .present hash) : look p = .present hash := by
  unfold without at h
  split at h
  · cases h
  · exact h

/-- What can be worked through does not depend on the paths that are to be removed. -/
theorem Workable.without (h : changes.Workable look) : changes.Workable (changes.without look) where
  present p hp := by
    unfold ChangeSet.without
    rw [if_neg fun hmem => h.apart p hp ((mem_removed p).mp hmem)]
    exact h.present p hp
  apart := h.apart

end ChangeSet

namespace RunSetting

open RunState

variable {σ : Type} (setting : RunSetting σ) {home : Location} {filter : FileFilter}
  {mode : IndexMode} {t : TreeView} {w w' w₁ w₂ w₃ : World σ} {c : RunContext}

def Aborts (mode : IndexMode) (w w' : World σ) : Prop :=
  ∃ report res, (setting.perform (.repository mode)).run w = (.ok report, w') ∧
    report.outcome = .ok res ∧ res.status = .aborted ∧
    ∀ n, report.state.checkpoint.lastCompletedBatch = some n → n < Nat.pow 2 64

/-- A run with nothing to go on from is interrupted, and so are runs in the same mode that go on
with it. -/
inductive Interrupted (mode : IndexMode) : World σ → World σ → Prop where
  | begun {w w' : World σ}
      (hfresh : ∀ c, w.loadCheckpoint setting.stateDir = .ok (some c) →
        c.status.isResumable = false)
      (hclock : w.clock.Valid) (habort : setting.Aborts mode w w') : Interrupted mode w w'
  | resumed {w w' w₂ w₃ : World σ} (h : Interrupted mode w w') (hdisk : w₂.disk = w'.disk)
      (hclock : w₂.clock.Valid) (habort : setting.Aborts mode w₂ w₃) : Interrupted mode w w₃

/-- What an interrupted run leaves to be gone on with: a detection is done with the files that its
checkpoint lists as processed. -/
structure Resumable (home : Location) (t : TreeView) (mode : IndexMode) (w w' : World σ)
    (c : Checkpoint) (m : Manifest) : Prop where
  same : Same home w.disk w'.disk
  checkpoint : w'.loadCheckpoint setting.stateDir = .ok (some c)
  manifest : w'.loadManifest setting.stateDir = .ok m
  status : c.status.isResumable = true
  done : ∀ target, mode = .auto target → ∀ p ∈ c.processedFiles,
    t.Done m c.lastIndexedCommit target p

/-- A run sends only texts of files that it is to write and that a checkpoint does not list as
processed. -/
def Spares (changes : ChangeSet) (c : Checkpoint) (w w' : World σ) : Prop :=
  World.Sends (fun text => ∃ p, changes.Writes p ∧ p ∉ c.processedFiles ∧
    text ∈ setting.textsAt w.disk p) w w'

/-- What is embedded anew of processed files are texts of other files too. -/
def Shared (changes : ChangeSet) (c : Checkpoint) (m : Manifest) (d : Disk) : Prop :=
  ∀ p ∈ c.processedFiles, changes.Writes p → ∀ text ∈ setting.mintedTexts m d p,
    ∃ q, changes.Writes q ∧ q ∉ c.processedFiles ∧ text ∈ setting.textsAt d q

variable {setting}

/-- A run that is begun there has the records and the commit of the interrupted one. -/
theorem Resumable.opened {c₀ : Checkpoint} {m : Manifest}
    (h : setting.Resumable home t mode w w' c₀ m) (hdisk : w₂.disk = w'.disk)
    (hopened : setting.Opened home w₂ c w₁) :
    c.manifest = m ∧ c.reference = c₀.lastIndexedCommit ∧
      ∀ p ∈ c.checkpoint.processedFiles, p ∈ c₀.processedFiles := by
  have hcheckpoint := (World.loadCheckpoint_congr w' w₂ hdisk).trans h.checkpoint
  have hmanifest := (World.loadManifest_congr w' w₂ hdisk).trans h.manifest
  refine ⟨Except.ok.inj (hopened.manifest.symm.trans hmanifest), ?_, fun p hp => ?_⟩
  · obtain ⟨previous, hprevious, hreference⟩ := hopened.reference
    rw [hreference, ← Except.ok.inj (hcheckpoint.symm.trans hprevious)]
    rfl
  · obtain ⟨previous, hprevious, ⟨c₁, rfl, _, hc, _⟩ | ⟨id, hc, _⟩⟩ := hopened.checkpoint
    · have heq : c₀ = c₁ := Option.some.inj (Except.ok.inj (hcheckpoint.symm.trans hprevious))
      rw [heq, ← hc]
      exact hp
    · rw [hc] at hp
      exact absurd hp Std.ExtTreeSet.not_mem_empty

variable (hstill : setting.env.Still)

include hstill

/-- What a run leaves that is aborted is loaded by the next one. -/
theorem execute_reloaded (hready : Ready setting.stateDir home w.disk) (hclock : w.clock.Valid)
    (hopened : setting.Opened home w c w₁) (detection : Detection) (force : Bool)
    (look : String → FileState) (hwork : detection.changes.Workable look)
    (hseen : Seen setting.root home w₁.disk look)
    (hgone : ∀ p, detection.changes.Removes p → (look p).isPresent = false) :
    Runs (setting.execute filter c detection force) w₁
      (fun report w' => ∀ res, report.outcome = .ok res → res.status = .aborted →
        (∀ n, report.state.checkpoint.lastCompletedBatch = some n → n < Nat.pow 2 64) →
        ∃ m, LeftOff home look c detection.changes w₁ w' report.state.checkpoint m ∧
          w'.loadManifest setting.stateDir = .ok m ∧
          w'.loadCheckpoint setting.stateDir = .ok (some report.state.checkpoint))
      (fun _ _ => False) := by
  have hready₁ := hready.of_same hopened.same
  obtain ⟨hschema, hstarted⟩ := hopened.stamped setting hready hclock
  have hload₁ : w₁.loadManifest setting.stateDir = .ok c.manifest :=
    (World.load_congr hready hready₁ hopened.kept).2.trans hopened.manifest
  apply runs_imp _ _ _ (execute_leftOff setting hstill filter hready₁ hwork hseen hgone)
  · intro report w' hleft res houtcome haborted hbatch
    obtain ⟨m, hleft⟩ := hleft res houtcome haborted
    exact ⟨m, hleft, hleft.loaded hready₁ (hopened.rest.2.1 ▸ hclock) hload₁ hschema hstarted
      hbatch⟩
  · exact fun _ _ h => h

variable (hfilter : setting.config.filterOf setting.root = .ok filter)

include hfilter

/-- An interrupted run leaves something to be gone on with, if it was begun so. -/
theorem Aborts.resumable (hready : Ready setting.stateDir home w.disk)
    (hapart : filter.Apart home w.disk) (hclock : w.clock.Valid)
    (hview : ∀ d, Same home w.disk d → setting.treeView filter d = t)
    (hlisted : ∀ target, mode = .auto target → ∀ c w₁, setting.Opened home w c w₁ →
      ∀ p ∈ c.checkpoint.processedFiles, t.Done c.manifest c.reference target p)
    (h : setting.Aborts mode w w') : ∃ c m, setting.Resumable home t mode w w' c m := by
  obtain ⟨report, res, hrun, houtcome, haborted, hbatch⟩ := h
  have hroot : filter.root = setting.root := FileFilter.ofConfig_root _ _ _ hfilter
  -- stated of all reports, as the context is known only inside of the run
  have hall : Runs (setting.perform (.repository mode)) w
      (fun report w' => ∀ res, report.outcome = .ok res → res.status = .aborted →
        (∀ n, report.state.checkpoint.lastCompletedBatch = some n → n < Nat.pow 2 64) →
        ∃ c m, setting.Resumable home t mode w w' c m) (fun _ _ => True) := by
    rw [runs_perform setting hfilter]
    apply runs_imp _ _ _ (openRun_opened setting w hready)
    · intro c w₁ hopened
      obtain rfl := hview w₁.disk hopened.same
      have hseen : Seen setting.root home w₁.disk (filter.inspect w₁.disk) := by
        rw [← hroot]
        exact (hapart.of_same hopened.same).seen
      have hwork := detection_workable setting filter w₁.disk c.manifest c.reference
        (.repository mode)
      cases mode with
      | full =>
        -- here it does not matter what the records say of removed paths
        apply runs_imp _ _ _ (execute_reloaded hstill hready hclock hopened _ _ _ hwork.without
          (fun p hash hlook => hseen p hash (ChangeSet.without_present hlook))
          fun p hp => ChangeSet.without_gone hp)
        · intro report w' hleft res houtcome haborted hbatch
          obtain ⟨m, hleft, hmanifest, hcheckpoint⟩ := hleft res houtcome haborted hbatch
          exact ⟨_, m, hopened.same.trans hleft.same, hcheckpoint, hmanifest, hleft.resumable,
            fun _ hmode => by cases hmode⟩
        · exact fun _ _ h => h.elim
      | auto target =>
        apply runs_imp _ _ _ (execute_reloaded hstill hready hclock hopened _ _ _ hwork hseen
          fun p hp => (setting.treeView filter w₁.disk).detect_gone c.manifest hp)
        · intro report w' hleft res houtcome haborted hbatch
          obtain ⟨m, hleft, hmanifest, hcheckpoint⟩ := hleft res houtcome haborted hbatch
          refine ⟨_, m, hopened.same.trans hleft.same, hcheckpoint, hmanifest, hleft.resumable,
            fun target' hmode p hp => ?_⟩
          cases hmode
          rw [hleft.reference]
          -- a processed file is of an earlier run, or of this one
          rcases hleft.processed p hp with hbefore | ⟨hright, hsources⟩
          · exact (hlisted target rfl c w₁ hopened p hbefore).mends hleft.mends
          · exact TreeView.done_of_right hleft.mends hsources hright
        · exact fun _ _ h => h.elim
    · exact fun _ _ _ => trivial
  exact runs_ok _ _ _ hall hrun res houtcome haborted hbatch

/-- However often a run is interrupted, it leaves something to be gone on with. -/
theorem Interrupted.resumable (hready : Ready setting.stateDir home w.disk)
    (htree : filter.Detached home w.disk) (hgit : setting.Unmoved home w.disk)
    (h : setting.Interrupted mode w w') :
    ∃ c m, setting.Resumable home (setting.treeView filter w.disk) mode w w' c m := by
  induction h with
  | begun hfresh hclock habort =>
    refine habort.resumable hstill hfilter hready htree.apart hclock (hgit.treeView htree)
      fun _ _ c w₁ hopened p hp => ?_
    obtain ⟨previous, hprevious, ⟨c₀, rfl, hstatus, _⟩ | ⟨id, hc, _⟩⟩ := hopened.checkpoint
    · rw [hfresh c₀ hprevious] at hstatus
      cases hstatus
    · rw [hc] at hp
      exact absurd hp Std.ExtTreeSet.not_mem_empty
  | resumed _ hdisk hclock habort ih =>
    obtain ⟨c₀, m₀, hleft⟩ := ih
    have hsame₂ := hdisk ▸ hleft.same
    obtain ⟨c, m, hnext⟩ := habort.resumable hstill hfilter (hready.of_same hsame₂)
      (htree.apart.of_same hsame₂) hclock
      (fun d hsame => hgit.treeView htree d (hsame₂.trans hsame))
      fun target hmode c w₁ hopened p hp => by
        obtain ⟨hm, hreference, hlisted⟩ := hleft.opened hdisk hopened
        rw [hm, hreference]
        exact hleft.done target hmode p (hlisted p hp)
    exact ⟨c, m, hsame₂.trans hnext.same, hnext.checkpoint, hnext.manifest, hnext.status,
      hnext.done⟩

/-- A run that goes on with an interrupted one. In a mode that detects changes it spares the
processed files; over everything it does so exactly if the texts of these are shared. -/
theorem Resumable.spares {c₀ : Checkpoint} {m : Manifest}
    (hleft : setting.Resumable home t mode w w' c₀ m)
    (hready : Ready setting.stateDir home w₂.disk) (htree : filter.Detached home w₂.disk)
    (hview : ∀ d, Same home w₂.disk d → setting.treeView filter d = t)
    (hdisk : w₂.disk = w'.disk) (changes : ChangeSet)
    (hchanges : changes = (setting.detection filter w₂.disk m c₀.lastIndexedCommit
      (.repository mode)).changes) :
    Runs (setting.perform (.repository mode)) w₂
      (fun report w₃ =>
        ((mode = .full → setting.Shared changes c₀ m w₂.disk) → setting.Spares changes c₀ w₂ w₃) ∧
        (report.IsFinished → report.state.Clean → setting.Spares changes c₀ w₂ w₃ →
          mode = .full → setting.Shared changes c₀ m w₂.disk))
      (fun _ _ => True) := by
  have hroot : filter.root = setting.root := FileFilter.ofConfig_root _ _ _ hfilter
  have hseen : Seen setting.root home w₂.disk (filter.inspect w₂.disk) := by
    rw [← hroot]
    exact htree.apart.seen
  have hwork : changes.Workable (filter.inspect w₂.disk) := by
    rw [hchanges]
    exact detection_workable setting filter _ _ _ _
  rw [runs_perform setting hfilter]
  apply runs_imp _ _ _ (openRun_opened setting w₂ hready)
  · intro c w₁ hopened
    have hready₁ := hready.of_same hopened.same
    have hseen₁ := hseen.of_same hopened.same
    have hopen : World.Sends (fun _ => False) w₂ w₁ := .none hopened.rest.2.2.2.2
    obtain ⟨hm, hreference, _⟩ := hleft.opened hdisk hopened
    -- the tree is the one that the interrupted run saw, and so is what is detected
    have hsees : setting.treeView filter w₁.disk = setting.treeView filter w₂.disk :=
      (hview _ hopened.same).trans (hview _ (.refl hready.leaf)).symm
    have hfound : (setting.detection filter w₁.disk c.manifest c.reference
        (.repository mode)).changes = changes := by
      rw [hchanges, hm, hreference]
      cases mode with
      | full => exact congrArg (fun v => (TreeView.detectAll v m).changes) hsees
      | auto target =>
        exact congrArg (fun v => (TreeView.detect v m c₀.lastIndexedCommit target).changes) hsees
    have hsame (p : String) (hp : changes.Writes p) :
        w₁.disk.readFile (Path.join setting.root p) =
          w₂.disk.readFile (Path.join setting.root p) := by
      obtain ⟨hash, hlook⟩ := hwork.present p hp
      obtain ⟨content, modified, _, hread⟩ := hseen p hash hlook
      exact (hread _ hopened.same).trans (hread _ (.refl hready.leaf)).symm
    generalize setting.detection filter w₁.disk c.manifest c.reference (.repository mode) =
      detection at hfound
    subst hfound
    cases mode with
    | auto target =>
      apply runs_imp _ _ _ (runs_and _ _ _
        (execute_ended setting home filter hstill _ c detection false w₁ hready₁ hwork hseen₁)
        (execute_sends setting hstill c detection false w₁ hready₁ hwork hseen₁))
      · rintro report w₃ ⟨⟨_, res, houtcome, _⟩, hsends⟩
        refine ⟨fun _ => (hopen.imp fun _ hfalse => hfalse.elim).trans
          ((hsends res houtcome).imp ?_), fun _ _ _ hmode => by cases hmode⟩
        rintro text ⟨p, hp, htext⟩
        refine ⟨p, hp, fun hlisted => ?_, ?_⟩
        · -- a file that is listed is done with
          apply (hleft.done target rfl p hlisted).spared
          rw [← hview _ (.refl hready.leaf)]
          exact hchanges ▸ hp
        · rw [← textsAt_congr setting (hsame p hp)]
          exact htext
      · exact fun _ _ h => h.1.elim
    | full =>
      have hrenamed : detection.changes.renamed = [] := by
        rw [hchanges]
        rfl
      have hminted (p : String) (hp : detection.changes.Writes p) :
          setting.mintedTexts c.manifest w₁.disk p = setting.mintedTexts m w₂.disk p :=
        mintedTexts_congr setting (hsame p hp) (congrArg (·.get? p) hm)
      apply runs_imp _ _ _ (runs_and _ _ _ (runs_and _ _ _
        (execute_ended setting home filter hstill _ c detection true w₁ hready₁ hwork hseen₁)
        (execute_mints setting hstill c detection w₁ hready₁ hrenamed hwork hseen₁))
        (execute_forced setting hstill c detection w₁ hready₁ hrenamed hwork hseen₁))
      · rintro report w₃ ⟨⟨⟨_, res, houtcome, _⟩, hsends⟩, hsent⟩
        constructor
        · intro hshared
          refine (hopen.imp fun _ hfalse => hfalse.elim).trans ((hsends res houtcome).imp ?_)
          rintro text ⟨p, hp, htext⟩
          rw [hminted p hp] at htext
          by_cases hlisted : p ∈ c₀.processedFiles
          · exact hshared rfl p hlisted hp text htext
          · exact ⟨p, hp, hlisted, textsAt_of_minted setting htext⟩
        · intro hfinished hclean hspares _ p hlisted hp text htext
          rw [← hminted p hp] at htext
          exact hspares.allowed_of_sent
            (World.Sent.before hopen (hsent hfinished hclean p hp text htext))
      · exact fun _ _ h => h.1.1.elim
  · exact fun _ _ _ => trivial

/-- A run that goes on with an interrupted one on the same tree sends no text for a file that the
checkpoint lists as processed, if it detects changes. A run over everything sends the texts of
these files again, so that it spares them only if the same texts are those of other files. -/
theorem resumed_spares_iff (hready : Ready setting.stateDir home w.disk)
    (htree : filter.Detached home w.disk) (hgit : setting.Unmoved home w.disk)
    (h : setting.Interrupted mode w w') :
    ∃ c m, w'.loadCheckpoint setting.stateDir = .ok (some c) ∧ c.status.isResumable = true ∧
      w'.loadManifest setting.stateDir = .ok m ∧
      ∀ w₂ w₃ report, w₂.disk = w'.disk →
        (setting.perform (.repository mode)).run w₂ = (.ok report, w₃) →
        ((mode = .full → setting.Shared (setting.detection filter w₂.disk m c.lastIndexedCommit
            (.repository mode)).changes c m w₂.disk) →
          setting.Spares (setting.detection filter w₂.disk m c.lastIndexedCommit
            (.repository mode)).changes c w₂ w₃) ∧
        (report.IsFinished → report.state.Clean →
          setting.Spares (setting.detection filter w₂.disk m c.lastIndexedCommit
            (.repository mode)).changes c w₂ w₃ →
          mode = .full → setting.Shared (setting.detection filter w₂.disk m c.lastIndexedCommit
            (.repository mode)).changes c m w₂.disk) := by
  obtain ⟨c, m, hleft⟩ := h.resumable hstill hfilter hready htree hgit
  refine ⟨c, m, hleft.checkpoint, hleft.status, hleft.manifest, fun w₂ w₃ report hdisk hrun => ?_⟩
  have hsame₂ : Same home w.disk w₂.disk := hdisk ▸ hleft.same
  exact runs_ok _ report w₃ (hleft.spares hstill hfilter (hready.of_same hsame₂)
    (htree.of_same hsame₂) (fun d hsame => hgit.treeView htree d (hsame₂.trans hsame)) hdisk _ rfl)
    hrun

end RunSetting

/-! ### A run over everything that is cancelled -/

section CutShort

open RunState RunSetting

def cutDisk : Disk := sampleDisk [("a.py", "a"), ("b.py", "b")]

def cutItem (text : String) : ExtractedEntity := ⟨.class_, "C", ⟨1, 1⟩, none, none, text⟩

def cutSetting : RunSetting MemoryStore :=
  { sampleSetting ⟨fun _ => true, fun _ text => .ok [cutItem text]⟩ fun _ => .outside with
    config := { filesPerBatch := 1 }
    env := { (sampleSetting ⟨fun _ => true, fun _ _ => .ok []⟩ fun _ => .outside).env with
      cancelsAt := fun _ => true } }

def cutWorld : World MemoryStore := sampleWorld cutDisk (sampleCheckpoint "old") .empty

theorem cut_cancelling : cutSetting.Cancelling where
  still := {
    request := fun _ _ => rfl
    store := fun _ _ _ h => by cases h
    write := fun _ => rfl }
  memory := rfl
  store _ _ := rfl
  cancels _ := rfl
  faithful := by
    have htime : ¬ ({} : RunConfig).retry.callTimeout < Duration.zero := by decide
    exact ⟨fun _ => [], rfl, fun _ _ => ⟨htime, rfl⟩⟩
  single := by decide

theorem cut_filter : cutSetting.config.filterOf cutSetting.root = .ok sampleFilter :=
  sampleFilter_eq

theorem cut_stateDir : cutSetting.stateDir = "/w/.sift" := by
  show ({} : RunConfig).stateDirOf "/w" = "/w/.sift"
  decide

theorem cut_ready : Ready "/w/.sift" sampleHome cutDisk := by
  apply sample_ready <;> decide

theorem cut_linkless : cutDisk.Linkless := Disk.linkless_of_all _ (by decide)

theorem cut_scan : sampleFilter.scan cutDisk = ["a.py", "b.py"] := by decide

variable {d : Disk} {p text : String}

theorem cut_stat (hp : (p, text) = ("a.py", "a") ∨ (p, text) = ("b.py", "b")) :
    sampleFilter.isEligible p = true ∧
      cutDisk.stat (Path.join "/w" p) = .ok (.file text.toUTF8 0) ∧
      Text.lossy text.toUTF8 = text ∧ (cutItem text).isMintable = true ∧
      sampleFilter.withinSize text.toUTF8.size = true ∧ Digest.isBinary text.toUTF8 = false := by
  rcases hp with hp | hp
  · cases hp
    exact ⟨by decide, by decide +kernel, by decide +kernel, by decide +kernel, by decide +kernel,
      by decide +kernel⟩
  · cases hp
    exact ⟨by decide, by decide +kernel, by decide +kernel, by decide +kernel, by decide +kernel,
      by decide +kernel⟩

theorem cut_read (hp : (p, text) = ("a.py", "a") ∨ (p, text) = ("b.py", "b"))
    (hsame : Same sampleHome cutDisk d) :
    d.readFile (Path.join cutSetting.root p) = .ok (text.toUTF8, 0) := by
  obtain ⟨heligible, hstat, _⟩ := cut_stat hp
  have hstat' : d.stat (Path.join "/w" p) = .ok (.file text.toUTF8 0) :=
    (sample_apart cutDisk cut_linkless p heligible d hsame).trans hstat
  unfold Disk.readFile
  rw [show Path.join cutSetting.root p = Path.join "/w" p from rfl, hstat']
  rfl

theorem cut_texts (hp : (p, text) = ("a.py", "a") ∨ (p, text) = ("b.py", "b"))
    (hsame : Same sampleHome cutDisk d) :
    cutSetting.textsAt d p = [(cutItem text).rendered .metadata] := by
  obtain ⟨_, _, hlossy, hmintable, _⟩ := cut_stat hp
  have hfind : cutSetting.extractor.find p text.toUTF8 = .ok [cutItem text] := by
    show Except.ok [cutItem (Text.lossy text.toUTF8)] = _
    rw [hlossy]
  unfold textsAt
  rw [cut_read hp hsame]
  dsimp only
  rw [hfind]
  dsimp only
  rw [List.filter_cons_of_pos hmintable]
  rfl

theorem cut_prepared (hp : (p, text) = ("a.py", "a") ∨ (p, text) = ("b.py", "b")) (m : Manifest) :
    ∃ file e, file.path = p ∧ file.fresh = [e] ∧ e.text = (cutItem text).rendered .metadata ∧
      ∀ d, Same sampleHome cutDisk d →
        prepare cutSetting true d (WorkItem.ofPath m p) = .ready file := by
  obtain ⟨_, _, hlossy, hmintable, _⟩ := cut_stat hp
  have hfind : cutSetting.extractor.find (WorkItem.ofPath m p).path text.toUTF8 =
      .ok [cutItem text] := by
    show Except.ok [cutItem (Text.lossy text.toUTF8)] = _
    rw [hlossy]
  obtain ⟨file, hfile⟩ : ∃ file, prepareContent cutSetting.extractor cutSetting.config.variants true
      (WorkItem.ofPath m p) text.toUTF8 0 = .ready file := by
    unfold prepareContent
    rw [hfind]
    exact ⟨_, rfl⟩
  obtain ⟨found, hfound, hmade⟩ := prepareContent_ready hfile
  rw [hfind] at hfound
  cases hfound
  refine ⟨file, (cutItem text).mint (WorkItem.ofPath m p).path
    ((WorkItem.ofPath m p).lineage.getD (lineageFor (WorkItem.ofPath m p).path)) .metadata, ?_, ?_,
    rfl, fun d hsame => ?_⟩
  · rw [hmade]
    exact WorkItem.ofPath_path m p
  · rw [hmade]
    show mintEntities _ _ [cutItem text] [.metadata] = _
    unfold mintEntities
    rw [List.filter_cons_of_pos hmintable]
    rfl
  · have hread : d.readFile (Path.join cutSetting.root (WorkItem.ofPath m p).path) =
        .ok (text.toUTF8, 0) := by
      rw [WorkItem.ofPath_path]
      exact cut_read hp hsame
    rw [prepare_read cutSetting true hread]
    exact hfile

/-- Both files are to be written, and nothing is to be removed. -/
theorem cut_detected (m : Manifest) (hm : ∀ p, (m.get? p).isSome → p = "a.py")
    (hsame : Same sampleHome cutDisk d) :
    ((cutSetting.treeView sampleFilter d).detectAll m).changes.deleted = [] ∧
      sortedPaths (((cutSetting.treeView sampleFilter d).detectAll m).changes.added ++
        ((cutSetting.treeView sampleFilter d).detectAll m).changes.modified) = ["a.py", "b.py"] ∧
      ∀ p, ((cutSetting.treeView sampleFilter d).detectAll m).changes.Writes p →
        p = "a.py" ∨ p = "b.py" := by
  obtain ⟨hadded, hmodified, hdeleted, hrenamed, _⟩ :=
    (cutSetting.treeView sampleFilter d).detectAll_parts m
  have hfiles (p : String) : p ∈ (cutSetting.treeView sampleFilter d).files ↔
      p = "a.py" ∨ p = "b.py" := by
    show p ∈ sampleFilter.scan d ↔ _
    rw [(sample_detached cutDisk cut_linkless).walk d hsame, cut_scan]
    simp
  have hpresent (p : String) (hp : p = "a.py" ∨ p = "b.py") :
      ((cutSetting.treeView sampleFilter d).look p).isPresent = true := by
    obtain ⟨text, hpair⟩ : ∃ text, (p, text) = ("a.py", "a") ∨ (p, text) = ("b.py", "b") := by
      rcases hp with rfl | rfl
      · exact ⟨_, .inl rfl⟩
      · exact ⟨_, .inr rfl⟩
    obtain ⟨heligible, hstat, _, _, hsize, hbinary⟩ := cut_stat hpair
    rw [FileState.isPresent_iff]
    refine ⟨Digest.contentHash text.toUTF8, ?_⟩
    show sampleFilter.inspect d p = _
    rw [(sample_apart cutDisk cut_linkless).inspect hsame, FileFilter.inspect_present]
    exact ⟨heligible, _, _, hstat, hsize, hbinary, rfl⟩
  refine ⟨?_, ?_, ?_⟩
  · rw [List.eq_nil_iff_forall_not_mem]
    intro p hp
    obtain ⟨hrecorded, hgone⟩ := (hdeleted p).mp hp
    have hin : p = "a.py" ∨ p = "b.py" := .inl (hm p hrecorded)
    exact hgone ⟨(hfiles p).mpr hin, .inl (hpresent p hin)⟩
  · have hall : sortedPaths ["a.py", "b.py"] = ["a.py", "b.py"] := by decide
    rw [← hall]
    apply sortedPaths_congr
    intro p
    rw [List.mem_append, hadded, hmodified]
    constructor
    · rintro (⟨hp, _⟩ | ⟨hp, _⟩)
      · simpa using (hfiles p).mp hp
      · simpa using (hfiles p).mp hp
    · intro hp
      have hin : p = "a.py" ∨ p = "b.py" := by simpa using hp
      cases hrecord : m.get? p with
      | none => exact .inl ⟨(hfiles p).mpr hin, hpresent p hin, rfl⟩
      | some r => exact .inr ⟨(hfiles p).mpr hin, hpresent p hin, rfl⟩
  · rintro p (hp | hp | ⟨e, he, _⟩)
    · exact (hfiles p).mp ((hadded p).mp hp).1
    · exact (hfiles p).mp ((hmodified p).mp hp).1
    · rw [hrenamed] at he
      exact absurd he List.not_mem_nil

/-- A run over both files is cancelled when `a.py` is committed, whose text it has sent. -/
theorem cut_run (w : World MemoryStore) (m : Manifest) (hsame : Same sampleHome cutDisk w.disk)
    (hclock : w.clock.Valid) (hcalm : w.isCancelled = false)
    (hfree : ¬ cutSetting.Barred sampleHome w)
    (hload : w.loadManifest cutSetting.stateDir = .ok m)
    (hm : ∀ p, (m.get? p).isSome → p = "a.py") :
    ∃ report w' res r now, (cutSetting.perform (.repository .full)).run w = (.ok report, w') ∧
      report.outcome = .ok res ∧ res.status = .aborted ∧
      World.Sent ((cutItem "a").rendered .metadata) w w' ∧
      Same sampleHome cutDisk w'.disk ∧ r.path = "a.py" ∧
      w'.loadManifest cutSetting.stateDir = .ok (m.recordIndexed r now) ∧
      "a.py" ∈ report.state.checkpoint.processedFiles ∧
      (w.loadCheckpoint cutSetting.stateDir = .ok (some (sampleCheckpoint "old")) →
        report.state.checkpoint.lastCompletedBatch = some 0 ∧
        w'.loadCheckpoint cutSetting.stateDir = .ok (some report.state.checkpoint)) := by
  have hready : Ready cutSetting.stateDir sampleHome w.disk := by
    rw [cut_stateDir]
    exact cut_ready.of_same hsame
  obtain ⟨c, w₁, hopen, hopened⟩ := runs_returns cutSetting.openRun
    (runs_imp _ _ _ (openRun_opened cutSetting w hready) (fun _ _ h => h) fun _ _ h => hfree h)
  have hsame₁ := hsame.trans hopened.same
  have hmanifest : c.manifest = m := Except.ok.inj (hopened.manifest.symm.trans hload)
  obtain ⟨hdeleted, hpaths, _⟩ := cut_detected c.manifest (hmanifest ▸ hm) hsame₁
  obtain ⟨file, e, hpath, hfresh, htext, hfirst⟩ := cut_prepared (.inl rfl) c.manifest
  obtain ⟨file', _, _, _, _, hsecond⟩ := cut_prepared (.inr rfl) c.manifest
  obtain ⟨report, w', hrun, hworld, ⟨res, houtcome, haborted⟩, plan, s, progress, hbegun, hbatch,
      hcut⟩ := runs_returns (cutSetting.execute sampleFilter c
        ((cutSetting.treeView sampleFilter w₁.disk).detectAll c.manifest) true)
    (execute_cut cut_cancelling c _ true w₁ (hready.of_same hopened.same)
      (hopened.rest.2.2.1.trans hcalm) hdeleted rfl "a.py" "b.py" [] hpaths file e []
      (fun d hd => hfirst d (hsame₁.trans hd)) hfresh fun p hp d hd => by
        rw [List.mem_singleton.mp hp]
        exact ⟨file', hsecond d (hsame₁.trans hd)⟩)
  subst hworld
  have hopening : World.Sends (fun _ => False) w w₁ := .none hopened.rest.2.2.2.2
  have hbeginning : World.Sends (fun _ => False) w₁ s.world := .none hbegun.requests
  have hstart : s.manifest = m := hbegun.manifest.trans hmanifest
  obtain ⟨now, hentered⟩ := hcut.entered
  obtain ⟨then_, hrecorded⟩ := hcut.recorded
  have hlater : report.state.manifest = m.recordIndexed (recordOf plan file) now := by
    rw [hentered, ← hstart]
  have hclock' : s.world.clock.Valid := by
    rw [hbegun.world.2.1, hopened.rest.2.1]
    exact hclock
  have hsame' := hsame₁.trans (hbegun.same.trans hcut.same)
  have hready' : Ready cutSetting.stateDir sampleHome report.state.world.disk := by
    rw [cut_stateDir]
    exact cut_ready.of_same hsame'
  refine ⟨report, _, res, recordOf plan file, now, ?_, houtcome, haborted, ?_, hsame', hpath, ?_,
    ?_, fun hold => ?_⟩
  · rw [perform_run cutSetting cut_filter (.repository .full) hopen]
    exact hrun
  · rw [← htext]
    exact World.Sent.before (hopening.trans hbeginning) (hcut.sent e [] hfresh)
  · rw [← hlater]
    exact World.loadManifest_saved _ hready'
      _ (hcut.storable hclock' (hstart ▸ World.loadManifest_storable w hready m hload))
      hcut.manifestText
  · rw [hrecorded]
    show "a.py" ∈ s.checkpoint.processedFiles.insertMany [file.path]
    rw [Std.ExtTreeSet.mem_insertMany_list, hpath]
    exact .inr rfl
  · -- the run is a new one, as the checkpoint before is that of a completed run
    obtain ⟨hschema, hstarted⟩ := hopened.stamped cutSetting hready hclock
    have hlast : report.state.checkpoint.lastCompletedBatch = some 0 := by
      obtain ⟨previous, hprevious, ⟨c₀, rfl, hstatus, _⟩ | ⟨id, hnew, _⟩⟩ := hopened.checkpoint
      · cases hold.symm.trans hprevious
        cases hstatus
      · rw [hrecorded]
        show some s.batchIndex = some 0
        rw [hbatch, hnew]
        rfl
    refine ⟨hlast, World.loadCheckpoint_saved _ hready' _ ⟨?_, fun n hn => ?_, ?_, ?_⟩
      hcut.checkpointText⟩
    · rw [hcut.checkpoint.schema, hbegun.checkpoint]
      exact hschema
    · rw [hlast] at hn
      cases hn
      decide
    · rw [hcut.checkpoint.started, hbegun.checkpoint]
      exact hstarted
    · apply hcut.timestamp hclock'
      rw [hbegun.checkpoint]
      exact hopened.rest.2.1 ▸ hclock

theorem cut_open :
    cutWorld.loadCheckpoint cutSetting.stateDir = .ok (some (sampleCheckpoint "old")) ∧
    cutWorld.loadManifest cutSetting.stateDir = .ok .empty ∧
    Same sampleHome cutDisk cutWorld.disk := by
  obtain ⟨hcheckpoint, hmanifest⟩ := World.load_holding (sampleCheckpoint "old") .empty cutWorld
    cut_ready (sampleCheckpoint_storable "old") Manifest.empty_storable rfl
  rw [cut_stateDir]
  exact ⟨hcheckpoint, hmanifest, World.holding_same _ _ cut_ready⟩

theorem cut_free : ¬ cutSetting.Barred sampleHome cutWorld := by
  obtain ⟨hcheckpoint, hmanifest, _⟩ := cut_open
  rintro (h | ⟨e, h⟩ | ⟨e, h⟩)
  · exact absurd h List.not_mem_nil
  · cases hcheckpoint.symm.trans h
  · cases hmanifest.symm.trans h

theorem cut_interrupted : ∃ w' c m, cutSetting.Interrupted .full cutWorld w' ∧
    w'.loadCheckpoint cutSetting.stateDir = .ok (some c) ∧ "a.py" ∈ c.processedFiles ∧
    w'.loadManifest cutSetting.stateDir = .ok m ∧ (∀ p, (m.get? p).isSome → p = "a.py") ∧
    Same sampleHome cutDisk w'.disk := by
  obtain ⟨hcheckpoint, hmanifest, hsame⟩ := cut_open
  have hnone (p : String) (hp : (Manifest.empty.get? p).isSome) : p = "a.py" := by
    rw [Manifest.get?_empty] at hp
    cases hp
  obtain ⟨report, w', res, r, now, hrun, houtcome, haborted, _, hsame', hpath, hload, hprocessed,
    hnew⟩ := cut_run cutWorld .empty hsame sample_clock rfl cut_free hmanifest hnone
  obtain ⟨hbatch, hcheckpoint'⟩ := hnew hcheckpoint
  have habort : cutSetting.Aborts .full cutWorld w' := by
    refine ⟨report, res, hrun, houtcome, haborted, fun n hn => ?_⟩
    rw [hbatch] at hn
    cases hn
    decide
  have hinterrupted : cutSetting.Interrupted .full cutWorld w' := by
    refine .begun (fun c hc => ?_) sample_clock habort
    cases hcheckpoint.symm.trans hc
    rfl
  refine ⟨w', report.state.checkpoint, _, hinterrupted, hcheckpoint', hprocessed, hload,
    fun p hp => ?_, hsame'⟩
  rw [Manifest.get?_recordIndexed, hpath] at hp
  by_cases heq : "a.py" = p
  · exact heq.symm
  · rw [if_neg heq] at hp
    exact hnone p hp

/-- The run that goes on with it sends the text of `a.py` once more, which no other file has. -/
theorem full_resends : ∃ w' c m w₂ w₃ report, cutSetting.Interrupted .full cutWorld w' ∧
    w'.loadCheckpoint cutSetting.stateDir = .ok (some c) ∧ "a.py" ∈ c.processedFiles ∧
    w'.loadManifest cutSetting.stateDir = .ok m ∧ w₂.disk = w'.disk ∧
    (cutSetting.perform (.repository .full)).run w₂ = (.ok report, w₃) ∧
    ¬ cutSetting.Spares (cutSetting.detection sampleFilter w₂.disk m c.lastIndexedCommit
      (.repository .full)).changes c w₂ w₃ := by
  obtain ⟨w', c, m, hinterrupted, hcheckpoint, hprocessed, hload, hm, hsame⟩ := cut_interrupted
  let w₂ : World MemoryStore := { cutWorld with disk := w'.disk }
  have hcheckpoint₂ := (World.loadCheckpoint_congr w' w₂ rfl).trans hcheckpoint
  have hload₂ := (World.loadManifest_congr w' w₂ rfl).trans hload
  have hfree : ¬ cutSetting.Barred sampleHome w₂ := by
    rintro (h | ⟨e, h⟩ | ⟨e, h⟩)
    · exact absurd h List.not_mem_nil
    · cases hcheckpoint₂.symm.trans h
    · cases hload₂.symm.trans h
  obtain ⟨report, w₃, _, _, _, hrun, _, _, hsent, _⟩ :=
    cut_run w₂ m hsame sample_clock rfl hfree hload₂ hm
  refine ⟨w', c, m, w₂, w₃, report, hinterrupted, hcheckpoint, hprocessed, hload, rfl, hrun,
    fun hspares => ?_⟩
  obtain ⟨p, hp, hlisted, htext⟩ := hspares.allowed_of_sent hsent
  rcases (cut_detected m hm hsame).2.2 p hp with rfl | rfl
  · exact hlisted hprocessed
  · -- the text of the other file is another one
    rw [cut_texts (.inr rfl) hsame] at htext
    exact absurd (List.mem_singleton.mp htext) (by decide +kernel)

/-- The condition at that run: it would have to be so that another file has the text of `a.py`. -/
theorem full_resends_condition : ∃ w', cutSetting.Interrupted .full cutWorld w' ∧
    ∃ c m, w'.loadCheckpoint cutSetting.stateDir = .ok (some c) ∧ c.status.isResumable = true ∧
      w'.loadManifest cutSetting.stateDir = .ok m ∧
      ∀ w₂ w₃ report, w₂.disk = w'.disk →
        (cutSetting.perform (.repository .full)).run w₂ = (.ok report, w₃) →
        ((IndexMode.full = .full → cutSetting.Shared (cutSetting.detection sampleFilter w₂.disk m
            c.lastIndexedCommit (.repository .full)).changes c m w₂.disk) →
          cutSetting.Spares (cutSetting.detection sampleFilter w₂.disk m c.lastIndexedCommit
            (.repository .full)).changes c w₂ w₃) ∧
        (report.IsFinished → report.state.Clean →
          cutSetting.Spares (cutSetting.detection sampleFilter w₂.disk m c.lastIndexedCommit
            (.repository .full)).changes c w₂ w₃ →
          IndexMode.full = .full → cutSetting.Shared (cutSetting.detection sampleFilter w₂.disk m
            c.lastIndexedCommit (.repository .full)).changes c m w₂.disk) := by
  obtain ⟨w', _, _, hinterrupted, _⟩ := cut_interrupted
  obtain ⟨_, _, hsame⟩ := cut_open
  have hready : Ready cutSetting.stateDir sampleHome cutWorld.disk := by
    rw [cut_stateDir]
    exact cut_ready.of_same hsame
  have htree := (sample_detached cutDisk cut_linkless).of_same hsame
  exact ⟨w', hinterrupted, resumed_spares_iff cut_cancelling.still cut_filter hready htree
    (fun _ _ => rfl) hinterrupted⟩

end CutShort

end CodeIndex
