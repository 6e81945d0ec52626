import CodeIndex.Proofs.Change.Mended
import CodeIndex.Proofs.Run.Calm

/-!
What a run leaves behind that is stopped by the store or cancelled. The manifest it saved last is in
line with the tree wherever it differs from the one it began with, and it has every file that the
checkpoint lists as processed as the tree has it.
-/

namespace CodeIndex

open StateDir

namespace RunState

variable {σ : Type} {setting : RunSetting σ} {home : Location} {look : String → FileState}
  {changes : ChangeSet} {s₀ s t u : RunState σ} {m : Manifest} {files more : List String}

/-- The moved record of a file is right for its new path, and for the old one that is gone. -/
theorem right_relocated (m : Manifest) (plan : RunPlan) {source target : String} (now : Duration)
    {r : FileRecord} (hr : m.get? source = some r) (hne : source ≠ target)
    (hgone : (look source).isPresent = false) (hlook : look target = .present r.contentHash) :
    m.Mends look (relocated m plan source target now) ∧
      (relocated m plan source target now).Right look source ∧
      (relocated m plan source target now).Right look target := by
  have hmoved := hashAt_relocated plan m source target now r hr hne
  have hsource : (relocated m plan source target now).Right look source := by
    unfold Manifest.Right
    rw [hmoved, if_neg (Ne.symm hne), if_pos rfl, FileState.hash?_of_absent hgone]
  have htarget : (relocated m plan source target now).Right look target := by
    unfold Manifest.Right
    rw [hmoved, if_pos rfl, hlook]
    rfl
  refine ⟨fun p => ?_, hsource, htarget⟩
  by_cases hp : target = p
  · exact .inr (hp ▸ htarget)
  · by_cases hp' : source = p
    · exact .inr (hp' ▸ hsource)
    · rw [hmoved, if_neg hp, if_neg hp']
      exact .inl rfl

/-- The state directory holds a manifest and the checkpoint of a run that began in `s₀`. The
manifest mends the one at the beginning; what the checkpoint lists as processed was listed before,
or it is recorded as the tree has it and so are the sources of renames. -/
structure Kept (look : String → FileState) (changes : ChangeSet) (home : Location)
    (s₀ : RunState σ) (m : Manifest) (t : RunState σ) : Prop where
  since : Since home s₀ t
  manifest : content home t.world.disk Manifest.fileName = some m.fileText.toUTF8 ∨
    content home t.world.disk Manifest.fileName =
      content home s₀.world.disk Manifest.fileName ∧ m = s₀.manifest
  checkpoint : content home t.world.disk Checkpoint.fileName = some t.checkpoint.fileText.toUTF8
  status : t.result.status = s₀.result.status
  resumable : t.checkpoint.status.isResumable = true
  storable : s₀.world.clock.Valid → s₀.manifest.Storable → m.Storable
  mends : s₀.manifest.Mends look m
  processed : ∀ p ∈ t.checkpoint.processedFiles, p ∈ s₀.checkpoint.processedFiles ∨
    m.Right look p ∧ ∀ e ∈ changes.renamed, m.Right look e.1

/-- A batch is worked on: its manifest mends the one that was saved last, and has some paths as the
tree has them. -/
def Engaged (look : String → FileState) (changes : ChangeSet) (home : Location) (s₀ : RunState σ)
    (right : List String) (t : RunState σ) : Prop :=
  ∃ m, Kept look changes home s₀ m t ∧ m.Mends look t.manifest ∧
    ∀ p ∈ right, t.manifest.Right look p

def Rested (look : String → FileState) (changes : ChangeSet) (home : Location) (s₀ t : RunState σ) :
    Prop :=
  Kept look changes home s₀ t.manifest t ∧ ∀ e ∈ changes.renamed, t.manifest.Right look e.1

def Stopped (look : String → FileState) (changes : ChangeSet) (home : Location) (s₀ : RunState σ)
    (e : IndexError) (t : RunState σ) : Prop :=
  (∃ m, Kept look changes home s₀ m t) ∧ ∃ cause, e = .storeWrite cause

theorem Kept.later (h : Kept look changes home s₀ m t) (hsince : Since home s₀ u)
    (hdisk : u.world.disk = t.world.disk) (hcheckpoint : u.checkpoint = t.checkpoint)
    (hstatus : u.result.status = t.result.status) : Kept look changes home s₀ m u where
  since := hsince
  manifest := hdisk ▸ h.manifest
  checkpoint := by
    rw [hdisk, hcheckpoint]
    exact h.checkpoint
  status := hstatus.trans h.status
  resumable := hcheckpoint ▸ h.resumable
  storable := h.storable
  mends := h.mends
  processed := hcheckpoint ▸ h.processed

theorem Kept.quiet (h : Kept look changes home s₀ m t) (hq : Quiet setting.env t u) :
    Kept look changes home s₀ m u :=
  h.later (hq.since setting h.since) (core_disk hq.core) hq.checkpoint
    (congrArg Core.status hq.core)

theorem Engaged.quiet (h : Engaged look changes home s₀ files t) (hq : Quiet setting.env t u) :
    Engaged look changes home s₀ files u := by
  obtain ⟨m, hkept, hmends, hright⟩ := h
  refine ⟨m, hkept.quiet hq, ?_, ?_⟩
  · rw [core_manifest hq.core]
    exact hmends
  · rw [core_manifest hq.core]
    exact hright

theorem Engaged.same (h : Engaged look changes home s₀ files t) :
    Same home s₀.world.disk t.world.disk := by
  obtain ⟨m, hkept, _⟩ := h
  exact hkept.since.same

theorem Engaged.since (h : Engaged look changes home s₀ files t) : Since home s₀ t := by
  obtain ⟨m, hkept, _⟩ := h
  exact hkept.since

theorem Engaged.fewer (h : Engaged look changes home s₀ files t) (hmore : more ⊆ files) :
    Engaged look changes home s₀ more t := by
  obtain ⟨m, hkept, hmends, hright⟩ := h
  exact ⟨m, hkept, hmends, fun p hp => hright p (hmore hp)⟩

/-- Calls to the store are made, and the manifest is mended in some more paths. -/
theorem Engaged.edit (h : Engaged look changes home s₀ files t) (more : List String)
    {w : World σ} (hw : t.world.Called w) {m' : Manifest} (hkeyed : t.manifest.Keyed → m'.Keyed)
    (hstorable : w.unixTime.Storable → t.manifest.Storable → m'.Storable)
    (hmends : t.manifest.Mends look m') (hmore : ∀ p ∈ more, m'.Right look p) :
    Engaged look changes home s₀ (files ++ more) { t with world := w, manifest := m' } := by
  obtain ⟨m, hkept, hbefore, hright⟩ := h
  have hsince := hkept.since.called hw m' hkeyed hstorable
  obtain ⟨store, calls, moments, rfl⟩ := hw
  refine ⟨m, hkept.later hsince rfl rfl rfl, hbefore.trans hmends, fun p hp => ?_⟩
  rcases List.mem_append.mp hp with hp | hp
  · exact (hright p hp).mends hmends
  · exact hmore p hp

theorem Engaged.stopped (h : Engaged look changes home s₀ files t) {w : World σ}
    (hw : t.world.Called w) (cause : StoreError) :
    Stopped look changes home s₀ (.storeWrite cause) { t with world := w } := by
  obtain ⟨m, hkept, _⟩ := h
  have hsince := hkept.since.called hw t.manifest id fun _ hs => hs
  obtain ⟨store, calls, moments, rfl⟩ := hw
  exact ⟨⟨m, hkept.later hsince rfl rfl rfl⟩, cause, rfl⟩

/-- A commit saves the manifest and lists the files of the batch as processed. -/
theorem Engaged.committed (h : Engaged look changes home s₀ (files ++ changes.renamed.map (·.1)) t)
    (hc : Committed home files t u) : Rested look changes home s₀ u := by
  obtain ⟨m, hkept, hmends, hright⟩ := h
  have hmanifest : u.manifest = t.manifest := congrArg Core.manifest hc.core
  have hsince := hc.since hkept.since
  have hsources : ∀ e ∈ changes.renamed, t.manifest.Right look e.1 := fun e he =>
    hright e.1 (List.mem_append_right _ (List.mem_map_of_mem he))
  have hstatus : u.result.status = t.result.status := congrArg Core.status hc.core
  refine ⟨⟨hsince, .inl ?_, hc.checkpointText, hstatus.trans hkept.status, ?_, hsince.storable,
    ?_, fun p hp => ?_⟩, ?_⟩
  · rw [hmanifest]
    exact hc.manifestText
  · rw [hc.checkpoint]
    rfl
  · rw [hmanifest]
    exact hkept.mends.trans hmends
  · rw [hmanifest]
    rw [hc.checkpoint] at hp
    have hlisted : p ∈ t.checkpoint.processedFiles.insertMany files := hp
    rw [Std.ExtTreeSet.mem_insertMany_list, List.contains_iff_mem] at hlisted
    rcases hlisted with hbefore | hnew
    · refine (hkept.processed p hbefore).imp id fun hdone => ⟨hdone.1.mends hmends, hsources⟩
    · exact .inr ⟨hright p (List.mem_append_left _ hnew), hsources⟩
  · rw [hmanifest]
    exact hsources

theorem Rested.begin (h : Rested look changes home s₀ t) (paths : List String) :
    Engaged look changes home s₀ (changes.renamed.map (·.1)) (t.begunBatch paths) := by
  have hsince := h.1.since.called (w := (t.begunBatch paths).world) ⟨_, _, _, rfl⟩ t.manifest id
    fun _ hs => hs
  refine ⟨t.manifest, h.1.later hsince rfl rfl rfl, .refl _, fun p hp => ?_⟩
  obtain ⟨e, he, rfl⟩ := List.mem_map.mp hp
  exact h.2 e he

theorem Rested.quiet (h : Rested look changes home s₀ t) (hq : Quiet setting.env t u) :
    Rested look changes home s₀ u := by
  have hmanifest := core_manifest hq.core
  refine ⟨?_, ?_⟩
  · rw [hmanifest]
    exact h.1.quiet hq
  · rw [hmanifest]
    exact h.2

section Deeds

variable (setting) (hstill : setting.env.Still)

include hstill

theorem forget_engaged (path : String) (hgone : (look path).isPresent = false)
    (h : Engaged look changes home s₀ files t) :
    Runs (forget setting path) t (fun _ u => Engaged look changes home s₀ (files ++ [path]) u)
      (Stopped look changes home s₀) := by
  rw [runs_forget]
  apply runs_imp _ _ _ (World.deleteFile_called setting.env hstill setting.store path t.world)
  · intro _ w hw
    obtain ⟨hmends, hright⟩ := Manifest.right_removeFile t.manifest w.unixTime hgone
    refine h.edit [path] hw (Manifest.keyed_removeFile _ _ _) (fun hnow hs => hs.removeFile _ _ hnow)
      hmends fun p hp => ?_
    rw [List.mem_singleton.mp hp]
    exact hright
  · exact fun e w hw => h.stopped hw e

theorem applyRename_engaged (plan : RunPlan) (hwork : changes.Workable look)
    (hseen : Seen setting.root home s₀.world.disk look) (found : Restructured)
    {source target : String} (hmem : (source, target) ∈ changes.renamed)
    (hgone : (look source).isPresent = false)
    (h : Engaged look changes home s₀ (found.touched ++ files) t) :
    Runs (applyRename setting plan found source target) t
      (fun r u => Engaged look changes home s₀ (r.touched ++ (files ++ [source])) u ∧
        ∀ p ∈ r.reindex, p ∈ found.reindex ∨ p = target)
      (Stopped look changes home s₀) := by
  have hwrites : changes.Writes target := .inr (.inr ⟨_, hmem, rfl⟩)
  have hne : source ≠ target := by
    rintro rfl
    exact hwork.apart _ hwrites (.inr ⟨_, hmem, rfl⟩)
  obtain ⟨hash, hlook⟩ := hwork.present target hwrites
  obtain ⟨content, modified, hhash, hread⟩ := hseen target hash hlook
  have hmore : ∀ p ∈ found.reindex ++ [target], p ∈ found.reindex ∨ p = target := fun p hp =>
    (List.mem_append.mp hp).imp id List.mem_singleton.mp
  apply applyRename_rule setting plan (fun touched reindex u =>
    Engaged look changes home s₀ (touched ++ (files ++ [source])) u ∧
      ∀ p ∈ reindex, p ∈ found.reindex ∨ p = target)
  · intro hnone
    obtain ⟨m, hkept, hmends, hright⟩ := h
    refine ⟨⟨m, hkept, hmends, fun p hp => ?_⟩, hmore⟩
    rw [← List.append_assoc] at hp
    rcases List.mem_append.mp hp with hp | hp
    · exact hright p hp
    · rw [List.mem_singleton.mp hp, Manifest.Right, (Manifest.hashAt_none _ _).mpr hnone,
        FileState.hash?_of_absent hgone]
  · -- a target that was seen can be read
    intro _ e he
    rw [hread _ h.same] at he
    cases he
  · intro r content' modified' hr hread' hsame
    rw [hread _ h.same] at hread'
    cases hread'
    rw [runs_relocate]
    apply runs_imp _ _ _ (World.renameFile_called setting.env hstill setting.store source target
      (t.manifest.get? target).isSome t.world)
    · intro _ w hw
      obtain ⟨hmends, hsource, htarget⟩ := right_relocated t.manifest plan w.unixTime hr hne hgone
        (by rw [hlook, ← hhash, hsame])
      refine ⟨(h.edit [source, target] hw (relocated_keyed _ _ _ _ _)
        (fun hnow hs => relocated_storable _ _ _ _ _ hs hnow) hmends fun p hp => ?_).fewer ?_,
        fun p hp => .inl hp⟩
      · rcases List.mem_cons.mp hp with rfl | hp
        · exact hsource
        · rw [List.mem_singleton.mp hp]
          exact htarget
      · intro p hp
        simp only [List.mem_append, List.mem_cons, List.not_mem_nil, or_false] at hp ⊢
        tauto
    · exact fun e w hw => h.stopped hw e
  · intro r content' modified' hr hread' hother
    apply runs_imp _ _ _ (forget_engaged setting hstill source hgone h)
    · refine fun _ u hu => ⟨hu.fewer fun p hp => ?_, hmore⟩
      simp only [List.mem_append, List.mem_singleton] at hp ⊢
      tauto
    · exact fun _ _ hu => hu

/-- Deletions and renames leave what they are about as the tree has it. -/
theorem applyStructural_rested (plan : RunPlan) (hwork : changes.Workable look)
    (hready : Ready setting.stateDir home s₀.world.disk)
    (hseen : Seen setting.root home s₀.world.disk look)
    (hgone : ∀ p, changes.Removes p → (look p).isPresent = false)
    (h : Kept look changes home s₀ s₀.manifest s₀) :
    Runs (applyStructural setting plan changes) s₀
      (fun reindex t => Rested look changes home s₀ t ∧ ∀ p ∈ reindex, changes.Writes p)
      (Stopped look changes home s₀) := by
  have hsince := h.since.called (w := (s₀.begunBatch (structuralPaths changes)).world)
    ⟨_, _, _, rfl⟩ s₀.manifest id fun _ hs => hs
  -- the engaged paths are those touched so far and the sources of the renames that are done
  apply applyStructural_rule setting plan changes
    (fun touched rest t => (∀ p ∈ rest, p ∈ changes.deleted) ∧
      Engaged look changes home s₀ touched t)
    (fun touched reindex rest t => ∃ done, changes.renamed = done ++ rest ∧
      Engaged look changes home s₀ (touched ++ done.map (·.1)) t ∧
      ∀ p ∈ reindex, changes.Writes p)
    (fun reindex t => Rested look changes home s₀ t ∧ ∀ p ∈ reindex, changes.Writes p)
  · exact ⟨fun _ hp => hp, s₀.manifest, h.later hsince rfl rfl rfl, .refl _,
      fun _ hp => absurd hp List.not_mem_nil⟩
  · rintro touched path rest t ⟨hrest, ht⟩
    have hpath := hgone path (.inl (hrest path List.mem_cons_self))
    apply runs_imp _ _ _ (forget_engaged setting hstill path hpath ht)
    · exact fun _ u hu => ⟨fun p hp => hrest p (List.mem_cons_of_mem path hp), hu⟩
    · exact fun _ _ hu => hu
  · rintro touched t ⟨_, ht⟩
    exact ⟨[], rfl, ht.fewer (by simp), fun _ hp => absurd hp List.not_mem_nil⟩
  · rintro found source target rest t ⟨done, hsplit, ht, hreindex⟩
    have hmem : (source, target) ∈ changes.renamed := by
      rw [hsplit]
      exact List.mem_append_right _ List.mem_cons_self
    apply runs_imp _ _ _ (applyRename_engaged setting hstill plan hwork hseen found hmem
      (hgone source (.inr ⟨_, hmem, rfl⟩)) ht)
    · rintro r u ⟨hu, hmore⟩
      refine ⟨done ++ [(source, target)], ?_, ?_, fun p hp => ?_⟩
      · rw [hsplit, List.append_assoc]
        rfl
      · rw [List.map_append]
        exact hu
      · rcases hmore p hp with hp | rfl
        · exact hreindex p hp
        · exact .inr (.inr ⟨_, hmem, rfl⟩)
    · exact fun _ _ hu => hu
  · rintro touched reindex t ⟨done, hsplit, ht, hreindex⟩
    rw [List.append_nil] at hsplit
    rw [← hsplit] at ht
    apply runs_imp _ _ _ (commitBatch_committed setting hstill touched t (hready.of_same ht.same))
    · exact fun _ u hu => ⟨ht.committed hu, hreindex⟩
    · exact fun _ _ hu => hu.elim
  · exact fun reindex t u ht hcounted => ⟨ht.1.quiet (hcounted.quiet setting.env), ht.2⟩

/-- A batch leaves the files that it has written as the tree has them. -/
theorem writeBatch_rested (plan : RunPlan) (hready : Ready setting.stateDir home s₀.world.disk)
    (pending : List PreparedFile) (hpending : ∀ file ∈ pending, Sighted look changes file)
    (h : Rested look changes home s₀ t) :
    Runs (writeBatch setting plan pending) t (fun _ u => Rested look changes home s₀ u)
      (Stopped look changes home s₀) := by
  -- what is written so far is as the tree has it, and the files that are left were seen there
  apply writeBatch_rule setting hstill plan pending (fun _ done _ rest u =>
    (∀ file ∈ rest, Sighted look changes file) ∧
      Engaged look changes home s₀ (done ++ changes.renamed.map (·.1)) u)
  · exact fun _ _ u hquiet _ _ => ⟨hpending, (h.begin _).quiet hquiet⟩
  · rintro _ done _ file rest u e _ _ ⟨hrest, m, hkept, hu⟩
    exact ⟨fun f hf => hrest f (List.mem_cons_of_mem _ hf), m,
      hkept.later (since_addFailure hkept.since _ _) rfl rfl rfl, hu⟩
  · rintro _ done vectors file rest u _ ⟨hrest, hu⟩
    obtain ⟨_, hlook, htime⟩ := hrest file List.mem_cons_self
    rw [runs_writeFile]
    apply runs_imp _ _ _ (World.updateFile_called setting.env hstill setting.store file.path
      file.previousIds file.currentIds (withVectors file.fresh vectors) file.hasRecord u.world)
    · intro _ w hw
      obtain ⟨hmends, hright⟩ :=
        Manifest.right_recordIndexed u.manifest (recordOf plan file) w.unixTime hlook
      refine ⟨fun f hf => hrest f (List.mem_cons_of_mem _ hf), (hu.edit [file.path] hw
        (Manifest.keyed_recordIndexed _ _ _) (fun hnow hs => hs.recordIndexed _ htime _ hnow)
        hmends fun p hp => ?_).fewer fun p hp => ?_⟩
      · rw [List.mem_singleton.mp hp]
        exact hright
      · simp only [List.mem_append, List.mem_singleton] at hp ⊢
        tauto
    · exact fun e w hw => hu.stopped hw e
  · rintro _ done _ u v ⟨_, hu⟩ hquiet
    have hv := hu.quiet hquiet
    apply runs_imp _ _ _ (commitBatch_committed setting hstill done v (hready.of_same hv.same))
    · exact fun _ x hx => hv.committed hx
    · exact fun _ _ hx => hx.elim
  · exact fun u v hu hquiet => hu.quiet hquiet

/-- However the batches of a run end, what was saved is as the tree has it. -/
theorem runBatches_kept (plan : RunPlan) (hwork : changes.Workable look)
    (hready : Ready setting.stateDir home s₀.world.disk)
    (hseen : Seen setting.root home s₀.world.disk look)
    (hgone : ∀ p, changes.Removes p → (look p).isPresent = false)
    (h : Kept look changes home s₀ s₀.manifest s₀) :
    Runs (runBatches setting plan changes) s₀
      (fun _ t => ∃ m, Kept look changes home s₀ m t) (Stopped look changes home s₀) := by
  apply runBatches_rule setting plan changes
    (fun reindex t => Rested look changes home s₀ t ∧ ∀ p ∈ reindex, changes.Writes p)
  · exact fun _ => ⟨_, h⟩
  · intro _ hrenamed
    refine ⟨⟨h, fun e he => ?_⟩, fun _ hp => absurd hp List.not_mem_nil⟩
    rw [hrenamed] at he
    exact absurd he List.not_mem_nil
  · exact applyStructural_rested setting hstill plan hwork hready hseen hgone h
  · rintro reindex t ⟨ht, hreindex⟩
    -- each file is prepared while the tree is as it was seen
    apply runs_imp _ _ _ (drain_files setting plan (Sighted look changes)
      (fun u => Rested look changes home s₀ u) _ _ ?_ ?_ ?_ _ (Nat.le_of_eq (List.length_map _)) t
      ht)
    · exact fun _ u hu => ⟨_, hu.1⟩
    · exact fun _ _ hu => hu
    · intro u item file hu hitem hprepared
      obtain ⟨p, hp, rfl⟩ := List.mem_map.mp hitem
      apply prepare_sighted setting plan hwork hseen hu.1.since.same _ hprepared
      rw [WorkItem.ofPath_path]
      exact ChangeSet.writes_of_left hreindex hp
    · intro u pending next hu
      have hsince := since_takePrepared hu.1.since pending next
      cases next <;> exact ⟨hu.1.later hsince rfl rfl rfl, hu.2⟩
    · exact fun u pending hu hpending =>
        writeBatch_rested setting hstill plan hready pending hpending hu

end Deeds

end RunState

namespace RunSetting

open RunState

/-- What is left in the state directory by a run that was to make some changes, and began with `c`
in the world `w`: a checkpoint and a manifest that are in line with the tree. -/
structure LeftOff {σ : Type} (home : Location) (look : String → FileState) (c : RunContext)
    (changes : ChangeSet) (w w' : World σ) (c' : Checkpoint) (m : Manifest) : Prop where
  same : Same home w.disk w'.disk
  clock : w.clock.Valid → w'.clock.Valid
  manifest : content home w'.disk Manifest.fileName = some m.fileText.toUTF8 ∨
    content home w'.disk Manifest.fileName = content home w.disk Manifest.fileName ∧
      m = c.manifest
  checkpoint : content home w'.disk Checkpoint.fileName = some c'.fileText.toUTF8
  reference : c'.lastIndexedCommit = c.reference
  schema : c'.schemaVersion = c.checkpoint.schemaVersion
  started : c'.startedAt = c.checkpoint.startedAt
  resumable : c'.status.isResumable = true
  timestamp : w.clock.Valid → c'.timestamp.Valid
  storable : w.clock.Valid → c.manifest.Storable → m.Storable
  mends : c.manifest.Mends look m
  processed : ∀ p ∈ c'.processedFiles, p ∈ c.checkpoint.processedFiles ∨
    m.Right look p ∧ ∀ e ∈ changes.renamed, m.Right look e.1

variable {σ : Type} {setting : RunSetting σ} {home : Location} {look : String → FileState}
  {c : RunContext} {detection : Detection} {force : Bool} {plan : RunPlan} {w w' : World σ}
  {s t : RunState σ} {c' : Checkpoint} {m : Manifest}

theorem Begun.kept (h : Begun home c detection force w plan s)
    (hready : Ready setting.stateDir home w.disk) :
    Kept look detection.changes home s s.manifest s where
  since := .refl (hready.of_same h.same).leaf
  manifest := .inr ⟨rfl, rfl⟩
  checkpoint := h.saved.content
  status := rfl
  resumable := by
    rw [h.checkpoint]
    rfl
  storable _ hs := hs
  mends := .refl _
  processed _ hp := .inl hp

theorem leftOff_of_kept (h : Kept look detection.changes home s m t)
    (hbegun : Begun home c detection force w plan s) :
    LeftOff home look c detection.changes w t.world t.checkpoint m where
  same := hbegun.same.trans h.since.same
  clock hv := h.since.clock (hbegun.world.2.1 ▸ hv)
  manifest := by
    rw [← hbegun.manifest, ← hbegun.saved.others _ (by decide) (by decide)]
    exact h.manifest
  checkpoint := h.checkpoint
  reference := by
    rw [h.since.checkpoint.last, hbegun.checkpoint]
    rfl
  schema := by
    rw [h.since.checkpoint.schema, hbegun.checkpoint]
    rfl
  started := by
    rw [h.since.checkpoint.started, hbegun.checkpoint]
    rfl
  resumable := h.resumable
  timestamp hv := by
    apply h.since.timestamp (hbegun.world.2.1 ▸ hv)
    rw [hbegun.checkpoint]
    exact hv
  storable hv hm := h.storable (hbegun.world.2.1 ▸ hv) (hbegun.manifest ▸ hm)
  mends := hbegun.manifest ▸ h.mends
  processed p hp := by
    refine (h.processed p hp).imp (fun hbefore => ?_) id
    rw [hbegun.checkpoint] at hbefore
    exact hbefore

theorem LeftOff.failed {changes : ChangeSet} {w'' : World σ} {now : Timestamp}
    (h : LeftOff home look c changes w w' c' m) (hnow : w.clock.Valid → now.Valid)
    (hsaved : World.Saved home Checkpoint.fileName (c'.fail now).fileText w' w'') :
    LeftOff home look c changes w w'' (c'.fail now) m where
  same := h.same.trans hsaved.same
  clock hv := by
    obtain ⟨disk, moments, rfl⟩ := hsaved.rest
    exact h.clock hv
  manifest := by
    rw [hsaved.others _ (by decide) (by decide)]
    exact h.manifest
  checkpoint := hsaved.content
  reference := h.reference
  schema := h.schema
  started := h.started
  resumable := rfl
  timestamp := hnow
  storable := h.storable
  mends := h.mends
  processed := h.processed

variable (setting) in
theorem execute_leftOff (hstill : setting.env.Still) (filter : FileFilter)
    (hready : Ready setting.stateDir home w.disk) (hwork : detection.changes.Workable look)
    (hseen : Seen setting.root home w.disk look)
    (hgone : ∀ p, detection.changes.Removes p → (look p).isPresent = false) :
    Runs (setting.execute filter c detection force) w
      (fun report w' => ∀ res, report.outcome = .ok res → res.status = .aborted →
        ∃ m, LeftOff home look c detection.changes w w' report.state.checkpoint m)
      (fun _ _ => False) := by
  apply runs_imp _ _ _ (execute_batches setting home filter hstill c detection force w hready
    (fun _ t => ∃ plan s m, Begun home c detection force w plan s ∧
      Kept look detection.changes home s m t)
    (fun e t => ∃ plan s, Begun home c detection force w plan s ∧
      Stopped look detection.changes home s e t) ?_)
  · rintro report w' ⟨hworld, hends⟩ res houtcome haborted
    rcases hends res houtcome with ⟨_, hcancelled | hstopped⟩ | hfinished
    · obtain ⟨_, s, m, hbegun, hkept⟩ := hcancelled
      exact ⟨m, hworld ▸ leftOff_of_kept hkept hbegun⟩
    · obtain ⟨plan', e, t, res', ⟨_, s, hbegun, ⟨m, hkept⟩, cause, rfl⟩, hconclude⟩ := hstopped
      have hleft := leftOff_of_kept hkept hbegun
      obtain ⟨⟨w'', hsaved, hstate⟩, _⟩ := runs_ok _ _ _
        (conclude_failed hstill plan' cause t (hready.of_same hleft.same)) hconclude
      rw [← hworld, hstate]
      exact ⟨m, hleft.failed hleft.clock hsaved⟩
    · -- the batches of a run do not abort it by themselves
      obtain ⟨_, t, ⟨_, s, m, hbegun, hkept⟩, _, hstatus⟩ := hfinished
      have hcompleted : t.result.status = .completed := hkept.status.trans hbegun.status
      have hdone : t.result.finish.status ≠ .aborted :=
        IndexResult.finish_ended (by rw [hcompleted]; decide)
      exact absurd (hstatus.symm.trans haborted) hdone
  · exact fun _ _ h => h
  · intro plan s hbegun
    have hready' := hready.of_same hbegun.same
    have hkept : Kept look detection.changes home s s.manifest s := hbegun.kept hready
    apply runs_imp _ _ _ (runBatches_kept setting hstill plan hwork hready'
      (hseen.of_same hbegun.same) hgone hkept)
    · rintro ending t ⟨m, ht⟩
      exact ⟨ht.since.same, plan, s, m, hbegun, ht⟩
    · exact fun e t ht => ⟨plan, s, hbegun, ht⟩

/-- What is left is loaded by the next run, as long as the number of the last batch fits the file. -/
theorem LeftOff.loaded {changes : ChangeSet} (h : LeftOff home look c changes w w' c' m)
    (hready : Ready setting.stateDir home w.disk) (hclock : w.clock.Valid)
    (hload : w.loadManifest setting.stateDir = .ok c.manifest)
    (hschema : c.checkpoint.schemaVersion = Checkpoint.currentSchema)
    (hstarted : c.checkpoint.startedAt.Valid)
    (hbatch : ∀ n, c'.lastCompletedBatch = some n → n < Nat.pow 2 64) :
    w'.loadManifest setting.stateDir = .ok m ∧
      w'.loadCheckpoint setting.stateDir = .ok (some c') := by
  have hready' := hready.of_same h.same
  have hfits := h.storable hclock (World.loadManifest_storable w hready c.manifest hload)
  refine ⟨?_, World.loadCheckpoint_saved w' hready' c' ⟨h.schema.trans hschema, hbatch,
    h.started ▸ hstarted, h.timestamp hclock⟩ h.checkpoint⟩
  rcases h.manifest with hsaved | ⟨hsame, rfl⟩
  · exact World.loadManifest_saved w' hready' m hfits hsaved
  · rw [World.loadManifest_eq w' hready', hsame, ← World.loadManifest_eq w hready]
    exact hload

end RunSetting

end CodeIndex
