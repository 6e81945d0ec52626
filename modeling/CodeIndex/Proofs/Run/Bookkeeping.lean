import CodeIndex.Proofs.Run.Filing
import CodeIndex.Proofs.Run.Undecided

/-!
The saves of a run lead from one ledger to the next. While a batch is worked on, the manifest that
the run carries is the saved one with the edits of the batch; a commit saves it, and then records
the batch in the checkpoint.
-/

namespace CodeIndex

open StateDir

/-- A moment of a run. -/
structure Sight (σ : Type) where
  moment : Moment σ
  shift : Shift

def Deed.beginsBatch : Deed → Bool
  | .batchBegun _ => true
  | _ => false

/-- The number of batches that were begun. -/
def batchesBegun {σ : Type} (trail : List (Sight σ)) : Nat :=
  trail.countP fun s => s.moment.deed.beginsBatch

namespace Ledger

structure Held (home : Location) (l : Ledger) (d : Disk) : Prop where
  manifest : content home d Manifest.fileName = l.manifest?.map fun m => m.fileText.toUTF8
  checkpoint : content home d Checkpoint.fileName = l.checkpoint.map fun c => c.fileText.toUTF8

variable {directory : String} {home : Location} {l l' : Ledger} {d d' : Disk}

theorem Held.spared (h : l.Held home d) (hd : Spared directory home d d') : l.Held home d' where
  manifest := (hd.kept _ (by decide)).trans h.manifest
  checkpoint := (hd.kept _ (by decide)).trans h.checkpoint

variable {σ : Type} {w w' : World σ}

theorem Held.checkpointFiled (h : l.Held home w.disk) {c : Checkpoint}
    (hw : World.Filed directory home Checkpoint.fileName c.fileText w w')
    (hmanifest : l'.manifest? = l.manifest?) (hc : l'.checkpoint = some c) :
    l'.Held home w'.disk where
  manifest := by
    rw [hw.others _ (by decide) (by decide), hmanifest]
    exact h.manifest
  checkpoint := by
    rw [hw.content, hc]
    rfl

theorem Held.manifestFiled (h : l.Held home w.disk) {m : Manifest}
    (hw : World.Filed directory home Manifest.fileName m.fileText w w')
    (hm : l'.manifest? = some m) (hcheckpoint : l'.checkpoint = l.checkpoint) :
    l'.Held home w'.disk where
  manifest := by
    rw [hw.content, hm]
    rfl
  checkpoint := by
    rw [hw.others _ (by decide) (by decide), hcheckpoint]
    exact h.checkpoint

/-- What was saved is loaded, as long as the number of its last batch fits the file. -/
theorem Held.load (hheld : l.Held home w.disk) (hready : Ready directory home w.disk)
    (hsound : l.Sound) (hfew : l.recordCount < Nat.pow 2 64) :
    w.loadManifest directory = .ok l.manifest ∧ w.loadCheckpoint directory = .ok l.checkpoint := by
  constructor
  · have hcontent := hheld.manifest
    unfold manifest? at hcontent
    split at hcontent
    · rename_i hnone
      rw [World.loadManifest_eq w hready, hcontent, Ledger.manifest, hnone]
      rfl
    · exact World.loadManifest_saved w hready _ hsound.fits hcontent
  · have hcontent := hheld.checkpoint
    cases hc : l.checkpoint with
    | none =>
      rw [hc] at hcontent
      rw [World.loadCheckpoint_eq w hready, hcontent]
      rfl
    | some c =>
      rw [hc] at hcontent
      exact World.loadCheckpoint_saved w hready c (hsound.storable hc hfew) hcontent

end Ledger

/-- The moments of runs, the latest first, as they are accounted for by saves: at each the state
directory holds what the ledger has by then, and no more batches are recorded than were begun. -/
inductive Account {σ : Type} (directory : String) (home : Location) :
    List (Sight σ) → Ledger → Prop where
  | start : Account directory home [] {}
  | same {earlier : List (Sight σ)} {l : Ledger} (s : Sight σ)
      (h : Account directory home earlier l) (hready : Ready directory home s.moment.disk)
      (hheld : l.Held home s.moment.disk) : Account directory home (s :: earlier) l
  | saved {earlier : List (Sight σ)} {l l' : Ledger} (s : Sight σ)
      (h : Account directory home earlier l) (hstep : Ledger.Step s.shift l l')
      (hready : Ready directory home s.moment.disk) (hheld : l'.Held home s.moment.disk)
      (hcount : l'.recordCount ≤ batchesBegun (s :: earlier)) :
      Account directory home (s :: earlier) l'

namespace Account

variable {σ : Type} {directory : String} {home : Location} {trail : List (Sight σ)} {l : Ledger}

theorem sound (h : Account directory home trail l) : l.Sound := by
  induction h with
  | start => exact Ledger.empty_sound
  | same s h hready hheld ih => exact ih
  | saved s h hstep hready hheld hcount ih => exact hstep.sound ih

theorem count (h : Account directory home trail l) : l.recordCount ≤ batchesBegun trail := by
  induction h with
  | start => exact Nat.le_refl 0
  | same s h hready hheld ih => exact Nat.le_trans ih (List.sublist_cons_self s _).countP_le
  | saved s h hstep hready hheld hcount ih => exact hcount

/-- At the last moment the state directory holds what the ledger has. -/
theorem last {s : Sight σ} {earlier : List (Sight σ)}
    (h : Account directory home (s :: earlier) l) :
    Ready directory home s.moment.disk ∧ l.Held home s.moment.disk := by
  cases h with
  | same s h hready hheld => exact ⟨hready, hheld⟩
  | saved s h hstep hready hheld hcount => exact ⟨hready, hheld⟩

theorem holder (h : Account directory home trail l) (r : Nat) (hr : l.holder = some r) :
    ∃ s ∈ trail, s.shift.run = r := by
  induction h with
  | start => cases hr
  | same s h hready hheld ih =>
    obtain ⟨s', hs', hrun⟩ := ih hr
    exact ⟨s', List.mem_cons_of_mem s hs', hrun⟩
  | saved s h hstep hready hheld hcount ih =>
    rw [hstep.holder] at hr
    exact ⟨s, List.mem_cons_self, Option.some.inj hr⟩

theorem earlier {later : List (Sight σ)} (h : Account directory home (later ++ trail) l) :
    ∃ l', Account directory home trail l' ∧ l'.ids ⊆ l.ids := by
  induction later generalizing l with
  | nil => exact ⟨l, h, fun _ hid => hid⟩
  | cons s later ih =>
    cases h with
    | same s h hready hheld => exact ih h
    | saved s h hstep hready hheld hcount =>
      obtain ⟨l', hl', hids⟩ := ih h
      exact ⟨l', hl', fun id hid => hstep.ids (hids hid)⟩

end Account

/-- What the saves of a run are booked with: the run itself, the moments of the runs before it,
those that its world had passed through, and the ids that runs are given. -/
structure Book (σ : Type) where
  shift : Shift
  trail : List (Sight σ)
  passed : List (Moment σ)
  runId : Nat → String

namespace Book

variable {σ : Type}

/-- The trail with some moments of the run. -/
def after (b : Book σ) (new : List (Moment σ)) : List (Sight σ) :=
  new.map (⟨·, b.shift⟩) ++ b.trail

/-- All saves up to this world are booked. Of the batches that were begun, at least so many are not
recorded. -/
structure Keeps (b : Book σ) (directory : String) (home : Location) (w : World σ) (l : Ledger)
    (unrecorded : Nat) : Prop where
  ready : Ready directory home w.disk
  held : l.Held home w.disk
  moments : ∃ new, w.moments = new ++ b.passed ∧ Account directory home (b.after new) l ∧
    l.recordCount + unrecorded ≤ batchesBegun (b.after new)
  clock : w.clock.Valid
  drawn : ∀ id ∈ l.ids, ∃ n ≤ w.runsStarted, b.runId n = id

variable {b : Book σ} {directory : String} {home : Location} {w w' : World σ} {l l' : Ledger}
  {n n' : Nat}

theorem Keeps.sound (h : b.Keeps directory home w l n) : l.Sound := by
  obtain ⟨new, _, haccount, _⟩ := h.moments
  exact haccount.sound

theorem Keeps.fewer (h : b.Keeps directory home w l n) (hle : n' ≤ n) :
    b.Keeps directory home w l n' := by
  obtain ⟨new, hnew, haccount, hcount⟩ := h.moments
  exact ⟨h.ready, h.held, ⟨new, hnew, haccount, by omega⟩, h.clock, h.drawn⟩

theorem after_append (b : Book σ) (more new : List (Moment σ)) :
    b.after (more ++ new) = more.map (⟨·, b.shift⟩) ++ b.after new := by
  unfold after
  rw [List.map_append, List.append_assoc]

theorem batchesBegun_append (b : Book σ) (more new : List (Moment σ)) :
    batchesBegun (b.after new) ≤ batchesBegun (b.after (more ++ new)) := by
  rw [after_append]
  unfold batchesBegun
  rw [List.countP_append]
  omega

/-- Moments at which the state directory holds what it held are accounted for. -/
theorem account_append {new more : List (Moment σ)} {d : Disk}
    (h : Account directory home (b.after new) l) (hheld : l.Held home d)
    (hmore : ∀ m ∈ more, Spared directory home d m.disk) :
    Account directory home (b.after (more ++ new)) l := by
  induction more with
  | nil => exact h
  | cons m more ih =>
    have hm := hmore m List.mem_cons_self
    exact .same ⟨m, b.shift⟩ (ih fun m' hm' => hmore m' (List.mem_cons_of_mem _ hm')) hm.ready
      (hheld.spared hm)

theorem Keeps.unfiled (h : b.Keeps directory home w l n)
    (hw : World.Unfiled directory home w w') : b.Keeps directory home w' l n := by
  obtain ⟨new, hnew, haccount, hcount⟩ := h.moments
  obtain ⟨more, hmore, hall⟩ := hw.moments
  refine ⟨hw.disk.ready, h.held.spared hw.disk, ⟨more ++ new, ?_, ?_, ?_⟩, hw.clock h.clock, ?_⟩
  · rw [hmore, hnew, List.append_assoc]
  · exact account_append haccount h.held hall
  · exact Nat.le_trans hcount (batchesBegun_append b more new)
  · rw [hw.runsStarted]
    exact h.drawn

theorem Keeps.begin (h : b.Keeps directory home w l n) (paths : List String) :
    b.Keeps directory home (w.mark (.batchBegun paths)) l (n + 1) := by
  obtain ⟨new, hnew, haccount, hcount⟩ := h.moments
  refine ⟨h.ready, h.held, ⟨⟨.batchBegun paths, w.disk, w.store⟩ :: new, ?_, ?_, ?_⟩, h.clock,
    h.drawn⟩
  · show _ :: w.moments = _
    rw [hnew]
    rfl
  · exact .same ⟨⟨.batchBegun paths, w.disk, w.store⟩, b.shift⟩ haccount h.ready h.held
  · have hone : batchesBegun (b.after (⟨.batchBegun paths, w.disk, w.store⟩ :: new)) =
        batchesBegun (b.after new) + 1 := by
      unfold batchesBegun after
      rw [List.map_cons, List.cons_append, List.countP_cons_of_pos rfl]
    omega

theorem Keeps.filed (h : b.Keeps directory home w l n) {name text : String}
    (hw : World.Filed directory home name text w w') (hstep : Ledger.Step b.shift l l')
    (hheld : l'.Held home w'.disk) (hcount : l'.recordCount + n' ≤ l.recordCount + n)
    (hids : ∀ id ∈ l'.ids, id ∈ l.ids ∨ ∃ k ≤ w'.runsStarted, b.runId k = id) :
    b.Keeps directory home w' l' n' := by
  obtain ⟨new, hnew, haccount, hbegun⟩ := h.moments
  obtain ⟨last, more, hmore, hlast, hall⟩ := hw.moments
  obtain ⟨disk, moments, hrest⟩ := hw.rest
  have hclock : w'.clock = w.clock := by rw [hrest]
  have hruns : w'.runsStarted = w.runsStarted := by rw [hrest]
  have hcount' : l'.recordCount + n' ≤ batchesBegun (b.after (last :: (more ++ new))) :=
    Nat.le_trans hcount (Nat.le_trans hbegun (batchesBegun_append b (last :: more) new))
  have hle : l'.recordCount ≤ batchesBegun (b.after (last :: (more ++ new))) :=
    Nat.le_trans (Nat.le_add_right _ _) hcount'
  refine ⟨hw.ready, hheld, ⟨last :: (more ++ new), ?_, ?_, hcount'⟩, hclock ▸ h.clock,
    fun id hid => ?_⟩
  · rw [hmore, hnew, List.cons_append, List.append_assoc]
  · exact .saved ⟨last, b.shift⟩ (account_append haccount h.held hall) hstep
      (by rw [hlast]; exact hw.ready) (by rw [hlast]; exact hheld) hle
  · rcases hids id hid with hin | hin
    · rw [hruns]
      exact h.drawn id hin
    · exact hin

end Book

namespace Checkpoint

def Unfinished (c : Checkpoint) : Prop := c.status.isResumable = true

theorem Active.unfinished {c : Checkpoint} (h : c.Active) : c.Unfinished := by
  unfold Unfinished
  rcases h with h | h <;> rw [h] <;> rfl

/-- The checkpoint of a run that is complete in a state: it refers to the commit that was checked
out, if there is one and no file was missed, and else to the commit that it referred to before. -/
structure Settles (reference head : Option String) {σ : Type} (s : RunState σ) (c : Checkpoint) :
    Prop where
  status : c.status = .completed
  timestamp : c.timestamp = s.world.clock
  commit : c.lastIndexedCommit = if s.Clean then head.or reference else reference

end Checkpoint

namespace RunState

variable {σ : Type} (setting : RunSetting σ) (home : Location) (b : Book σ)

/-- A batch is worked on: the manifest is the saved one with some edits, and the checkpoint is the
saved one. -/
structure Level (s : RunState σ) (l : Ledger) (edits : List RecordEdit) (unrecorded : Nat) :
    Prop where
  keeps : b.Keeps setting.stateDir home s.world l unrecorded
  manifest : s.manifest = edits.foldl RecordEdit.apply l.manifest
  fits : s.manifest.Storable
  checkpoint : l.checkpoint = some s.checkpoint
  active : s.checkpoint.Active
  holder : l.holder = some b.shift.run
  level : ∀ p ∈ l.ahead, p.run < b.shift.run
  index : s.batchIndex = s.checkpoint.nextBatch
  target : s.checkpoint.targetCommit = b.shift.head

def Works (files : List String) (unrecorded : Nat) (s : RunState σ) : Prop :=
  ∃ l edits, edits.flatMap RecordEdit.files = files ∧ Level setting home b s l edits unrecorded

structure Posted (w : World σ) (c : Checkpoint) (l : Ledger) (edits : List RecordEdit)
    (unrecorded : Nat) : Prop where
  keeps : b.Keeps setting.stateDir home w l unrecorded
  checkpoint : l.checkpoint = some c
  active : c.Active
  holder : l.holder = some b.shift.run
  ahead : ∃ ahead, l.ahead = ahead ++ [⟨b.shift.run, c.runId, .batch edits, none⟩]

def Torn (s : RunState σ) : Prop :=
  ∃ c l edits now, Posted setting home b s.world c l edits 1 ∧
    s.checkpoint = c.recordBatch c.nextBatch (edits.flatMap RecordEdit.files) now

def Upset (s : RunState σ) : Prop :=
  (∃ files unrecorded, Works setting home b files unrecorded s) ∨ Torn setting home b s

variable {setting home b} {s t : RunState σ} {files : List String} {n : Nat}

theorem Works.upset (h : Works setting home b files n s) : Upset setting home b s :=
  .inl ⟨files, n, h⟩

theorem Works.ready (h : Works setting home b files n s) :
    Ready setting.stateDir home s.world.disk := by
  obtain ⟨l, edits, _, hl⟩ := h
  exact hl.keeps.ready

theorem Works.clock (h : Works setting home b files n s) : s.world.clock.Valid := by
  obtain ⟨l, edits, _, hl⟩ := h
  exact hl.keeps.clock

theorem Works.fits (h : Works setting home b files n s) : s.manifest.Storable := by
  obtain ⟨l, edits, _, hl⟩ := h
  exact hl.fits

theorem Works.unsaved (h : Works setting home b files n s) (ht : Unsaved setting home s t) :
    Works setting home b files n t := by
  obtain ⟨l, edits, hfiles, hl⟩ := h
  exact ⟨l, edits, hfiles, hl.keeps.unfiled ht.world, ht.manifest ▸ hl.manifest,
    ht.manifest ▸ hl.fits, ht.checkpoint ▸ hl.checkpoint, ht.checkpoint ▸ hl.active, hl.holder,
    hl.level, by rw [ht.batchIndex, ht.checkpoint]; exact hl.index, ht.checkpoint ▸ hl.target⟩

theorem Works.aside (h : Works setting home b files n s) (hworld : t.world = s.world)
    (hmanifest : t.manifest = s.manifest) (hcheckpoint : t.checkpoint = s.checkpoint)
    (hindex : t.batchIndex = s.batchIndex) : Works setting home b files n t := by
  have hw : World.Unfiled setting.stateDir home s.world t.world := by
    rw [hworld]
    exact .refl h.ready
  exact h.unsaved ⟨hw, hmanifest, hcheckpoint, hindex⟩

theorem Works.elsewhere (h : Works setting home b files n s) {w : World σ}
    (hw : World.Unfiled setting.stateDir home s.world w) :
    Works setting home b files n { s with world := w } :=
  h.unsaved ⟨hw, rfl, rfl, rfl⟩

theorem Works.begin (h : Works setting home b files n s) (paths : List String) :
    Works setting home b files (n + 1) { s with world := s.world.mark (.batchBegun paths) } := by
  obtain ⟨l, edits, hfiles, hl⟩ := h
  exact ⟨l, edits, hfiles, hl.keeps.begin paths, hl.manifest, hl.fits, hl.checkpoint, hl.active,
    hl.holder, hl.level, hl.index, hl.target⟩

theorem Works.between (h : Works setting home b [] n s) : ∃ l, Level setting home b s l [] n := by
  obtain ⟨l, edits, hfiles, hl⟩ := h
  cases edits with
  | nil => exact ⟨l, hl⟩
  | cons edit rest => cases edit <;> cases hfiles

theorem Works.edit (h : Works setting home b files n s) {w : World σ}
    (hw : World.Unfiled setting.stateDir home s.world w) (edit : RecordEdit)
    (hfits : (edit.apply s.manifest).Storable) :
    Works setting home b (files ++ edit.files) n
      { s with world := w, manifest := edit.apply s.manifest } := by
  obtain ⟨l, edits, rfl, hl⟩ := h
  refine ⟨l, edits ++ [edit], ?_, hl.keeps.unfiled hw, ?_, hfits, hl.checkpoint, hl.active,
    hl.holder, hl.level, hl.index, hl.target⟩
  · rw [List.flatMap_append, List.flatMap_singleton]
  · rw [List.foldl_append, ← hl.manifest]
    rfl

/-- The manifest is saved with some work done, while none of this run is ahead. -/
theorem Level.filed {l : Ledger} {edits : List RecordEdit} {m : Manifest} {w : World σ}
    (h : Level setting home b s l edits n) (work : Work) (hwork : work.apply l.manifest = m)
    (hm : m.Storable)
    (hw : World.Filed setting.stateDir home Manifest.fileName m.fileText s.world w) :
    b.Keeps setting.stateDir home w
      (l.post ⟨b.shift.run, s.checkpoint.runId, work, none⟩) n := by
  have hstep := Ledger.Step.posted s.checkpoint work h.holder h.checkpoint h.level
    (by rw [hwork]; exact hm)
  have hposted : Ledger.manifest? (l.post ⟨b.shift.run, s.checkpoint.runId, work, none⟩) =
      some m := (Ledger.manifest?_post l _).trans (congrArg some hwork)
  exact h.keeps.filed hw hstep (h.keeps.held.manifestFiled hw hposted rfl) (Nat.le_refl _)
    fun _ hid => .inl hid

theorem Level.posted {l : Ledger} {edits : List RecordEdit} {w : World σ}
    (h : Level setting home b s l edits n)
    (hw : World.Filed setting.stateDir home Manifest.fileName s.manifest.fileText s.world w) :
    ∃ l', Posted setting home b w s.checkpoint l' edits n ∧ l'.manifest = s.manifest := by
  have hwork : Work.apply l.manifest (.batch edits) = s.manifest := h.manifest.symm
  exact ⟨_, ⟨h.filed _ hwork h.fits hw, h.checkpoint, h.active, h.holder, l.ahead, rfl⟩,
    (Ledger.manifest_post l _).trans hwork⟩

section Posted

variable {w w' : World σ} {c : Checkpoint} {l : Ledger} {edits : List RecordEdit}

/-- The checkpoint is saved with the batch recorded, by itself or as the run fails. -/
theorem Posted.filed (h : Posted setting home b w c l edits (n + 1)) {c' : Checkpoint}
    (hw : World.Filed setting.stateDir home Checkpoint.fileName c'.fileText w w')
    (hstep : ∀ ahead, l.ahead = ahead ++ [⟨b.shift.run, c.runId, .batch edits, none⟩] →
      Ledger.Step b.shift l
        (l.record ahead ⟨b.shift.run, c.runId, .batch edits, none⟩ c.nextBatch c')) :
    ∃ l', b.Keeps setting.stateDir home w' l' n ∧ l'.manifest = l.manifest ∧
      l'.checkpoint = some c' ∧ l'.holder = some b.shift.run ∧ l'.ahead = [] := by
  obtain ⟨ahead, hahead⟩ := h.ahead
  have hworks := Ledger.works_record c.nextBatch c' hahead
  have hkeeps : b.Keeps setting.stateDir home w'
      (l.record ahead ⟨b.shift.run, c.runId, .batch edits, none⟩ c.nextBatch c') n :=
    h.keeps.filed hw (hstep ahead hahead)
      (h.keeps.held.checkpointFiled hw (Ledger.manifest?_congr hworks) rfl) (by
      rw [Ledger.recordCount_record h.keeps.sound _ _ hahead]
      omega) fun _ hid => .inl hid
  refine ⟨_, hkeeps, ?_, rfl, h.holder, rfl⟩
  rw [Ledger.manifest, hworks]
  rfl

end Posted

/-- A commit saves the manifest of the batch and records it. When a save is refused, the batch is
still open or torn. -/
theorem commitBatch_works (h : Works setting home b files (n + 1) s) :
    Runs (commitBatch setting files) s (fun _ t => Works setting home b [] n t)
      (fun _ t => Upset setting home b t) := by
  obtain ⟨l, edits, rfl, hl⟩ := h
  rw [runs_commitBatch]
  apply runs_imp _ _ _ (World.save_filed setting.env Manifest.fileName s.manifest.fileText s.world
    hl.keeps.ready (by decide))
  · intro _ w hw
    obtain ⟨l', hposted, hmanifest⟩ := hl.posted hw
    rw [hl.index]
    apply runs_imp _ _ _ (World.save_filed setting.env Checkpoint.fileName _ w hposted.keeps.ready
      (by decide))
    · intro _ w' hw'
      obtain ⟨l'', hkeeps, hmanifest', hcheckpoint, hholder, hahead⟩ := hposted.filed hw'
        fun ahead hahead => .recorded s.checkpoint ahead edits w.clock hposted.holder
          hposted.checkpoint hl.active hahead hposted.keeps.clock
      refine ⟨l'', [], rfl, hkeeps.unfiled ((World.Unfiled.refl hkeeps.ready).mark _),
        (hmanifest'.trans hmanifest).symm, hl.fits, hcheckpoint, .inr rfl, hholder, ?_, rfl,
        hl.target⟩
      rw [hahead]
      exact fun p hp => absurd hp List.not_mem_nil
    · rintro e w' ⟨hw', _⟩
      exact .inr ⟨s.checkpoint, l', edits, w.clock, ⟨(hposted.keeps.unfiled hw'.unfiled).fewer
        (by omega), hposted.checkpoint, hl.active, hposted.holder, hposted.ahead⟩, rfl⟩
  · rintro e w ⟨hw, _⟩
    exact (Works.elsewhere ⟨l, edits, rfl, hl⟩ hw.unfiled).upset

/-! ### Batches -/

section Batches

variable (hspares : setting.env.Spares setting.stateDir home)

include hspares

theorem forget_works (path : String) (h : Works setting home b files n s) :
    Runs (forget setting path) s (fun _ t => Works setting home b (files ++ [path]) n t)
      (fun _ t => Upset setting home b t) := by
  rw [runs_forget]
  apply runs_imp _ _ _ (World.deleteFile_unfiled hspares setting.store path h.ready)
  · intro _ w hw
    exact h.edit hw (.forget path w.unixTime)
      (h.fits.removeFile path _ (w.unixTime_storable (hw.clock h.clock)))
  · exact fun _ w hw => (h.elsewhere hw).upset

theorem relocate_works (plan : RunPlan) (source target : String)
    (h : Works setting home b files n s) :
    Runs (relocate setting plan source target) s
      (fun _ t => Works setting home b (files ++ [source, target]) n t)
      (fun _ t => Upset setting home b t) := by
  rw [runs_relocate]
  apply runs_imp _ _ _ (World.renameFile_unfiled hspares setting.store source target _ h.ready)
  · intro _ w hw
    exact h.edit hw (.relocate source target plan.head (plan.isDiverged target) w.unixTime)
      (relocated_storable s.manifest plan source target _ h.fits
        (w.unixTime_storable (hw.clock h.clock)))
  · exact fun _ w hw => (h.elsewhere hw).upset

theorem writeFile_works (plan : RunPlan) (file : PreparedFile) (vectors : List Embedding)
    (htime : file.modificationTime < Nat.pow 2 64) (h : Works setting home b files n s) :
    Runs (writeFile setting plan file vectors) s
      (fun _ t => Works setting home b (files ++ [file.path]) n t)
      (fun _ t => Upset setting home b t) := by
  rw [runs_writeFile]
  apply runs_imp _ _ _ (World.updateFile_unfiled hspares setting.store file.path file.previousIds
    file.currentIds _ file.hasRecord h.ready)
  · intro _ w hw
    exact h.edit hw (.enter (recordOf plan file) w.unixTime)
      (h.fits.recordIndexed _ htime _ (w.unixTime_storable (hw.clock h.clock)))
  · exact fun _ w hw => (h.elsewhere hw).upset

theorem applyStructural_works (plan : RunPlan) (changes : ChangeSet)
    (h : Works setting home b [] 0 s) :
    Runs (applyStructural setting plan changes) s (fun _ t => Works setting home b [] 0 t)
      (fun _ t => Upset setting home b t) := by
  apply runs_imp _ _ _ (applyStructural_keeps setting plan changes
    (fun touched t => Works setting home b touched 1 t) (fun t => Works setting home b [] 0 t) _ s
    (h.begin _) (fun _ path t ht => forget_works hspares path ht)
    (fun _ source target t ht => relocate_works hspares plan source target ht)
    (fun _ _ _ _ t _ _ ht => ht.aside rfl rfl rfl rfl) (fun _ t ht => commitBatch_works ht) ?_)
  · exact fun _ _ ht => ht.1
  · exact fun _ _ ht => ht
  · rintro t u ht ⟨⟨_, _, rfl⟩, _, _, _⟩
    exact ht.aside rfl rfl rfl rfl

theorem writeBatch_works (plan : RunPlan) (todo : List PreparedFile)
    (htimes : ∀ file ∈ todo, file.modificationTime < Nat.pow 2 64)
    (h : Works setting home b [] 0 s) :
    Runs (writeBatch setting plan todo) s (fun _ t => Works setting home b [] 0 t)
      (fun _ t => Upset setting home b t) := by
  have hbegun := h.begin (todo.map (·.path))
  apply writeBatch_keeps setting plan todo (fun file => file.modificationTime < Nat.pow 2 64)
    (fun done t => Works setting home b done 1 t) _ _ s htimes ?_
    (fun _ _ _ t ht => ht.aside rfl rfl rfl rfl)
    (fun _ vectors file t htime ht => writeFile_works hspares plan file vectors htime ht)
  · rintro done t u ht ⟨⟨_, _, rfl⟩, _, _, _⟩
    exact commitBatch_works (ht.aside rfl rfl rfl rfl)
  · rintro t u ht ⟨⟨_, _, rfl⟩, _, _, _⟩
    exact ht.aside rfl rfl rfl rfl
  · apply runs_imp _ _ _ (embedAll_unsaved hspares (textsOf todo) (.refl hbegun.ready))
    · exact fun _ t ht => hbegun.unsaved ht
    · exact fun _ t ht => hbegun.unsaved ht

/-- A run goes through its batches, or is left with one that is open or torn. -/
theorem runBatches_works (plan : RunPlan) (changes : ChangeSet)
    (h : Works setting home b [] 0 s) :
    Runs (runBatches setting plan changes) s (fun _ t => Works setting home b [] 0 t)
      (fun _ t => Upset setting home b t) := by
  apply runBatches_rule setting plan changes (fun _ t => Works setting home b [] 0 t)
  · exact fun _ => h
  · exact fun _ _ => h
  · exact applyStructural_works hspares plan changes h
  · intro reindex t ht
    exact drain_files setting plan (fun file => file.modificationTime < Nat.pow 2 64)
      (fun u => Works setting home b [] 0 u) _ _
      (fun _ _ _ _ _ hprepared => prepare_time setting hprepared)
      (fun u pending next hu => by cases next <;> exact hu.aside rfl rfl rfl rfl)
      (fun u pending hu hpending => writeBatch_works hspares plan pending hpending hu) _
      (Nat.le_of_eq (List.length_map _)) t ht

end Batches

/-! ### Ends -/

/-- All saves of a run are booked that ends in this state, if it is right about its being clean. The
checkpoint that was saved last is as it is said to be. -/
def Ends (setting : RunSetting σ) (home : Location) (b : Book σ) (said : Checkpoint → Prop)
    (s : RunState σ) : Prop :=
  (s.Clean → b.shift.clean) →
    ∃ l c, b.Keeps setting.stateDir home s.world l 0 ∧ l.checkpoint = some c ∧ said c

variable {said : Checkpoint → Prop} {reference : Option String}

theorem ends_of_keeps {l : Ledger} {c : Checkpoint}
    (h : b.Keeps setting.stateDir home s.world l n) (hc : l.checkpoint = some c) (hsaid : said c) :
    Ends setting home b said s := fun _ => ⟨l, c, h.fewer (Nat.zero_le n), hc, hsaid⟩

theorem Works.ends (h : Works setting home b files n s) :
    Ends setting home b Checkpoint.Unfinished s := by
  obtain ⟨l, edits, _, hl⟩ := h
  exact ends_of_keeps hl.keeps hl.checkpoint hl.active.unfinished

/-- A run that stops short saves that it failed, with a batch that was torn. -/
theorem fail_ends (h : Upset setting home b s) :
    Runs (saveCheckpoint setting) (RunSetting.failCheckpoint s)
      (fun _ t => Ends setting home b Checkpoint.Unfinished t)
      (fun _ t => Ends setting home b Checkpoint.Unfinished t) := by
  unfold saveCheckpoint
  simp only [runs_bind, runs_get, runs_inWorld]
  rcases h with ⟨files, n, l, edits, _, hl⟩ | ⟨c, l, edits, now, hposted, hcheckpoint⟩
  · apply runs_imp _ _ _ (World.save_filed setting.env Checkpoint.fileName _ s.world hl.keeps.ready
      (by decide))
    · intro _ w hw
      have hstep : Ledger.Step b.shift l { l with checkpoint := some (s.checkpoint.fail _) } :=
        .failed s.checkpoint s.world.clock hl.holder hl.checkpoint hl.active hl.keeps.clock
      exact ends_of_keeps (hl.keeps.filed hw hstep (hl.keeps.held.checkpointFiled hw rfl rfl)
        (Nat.le_refl _) fun _ hid => .inl hid) rfl rfl
    · exact fun _ w hw => ends_of_keeps (hl.keeps.unfiled hw.1.unfiled) hl.checkpoint
        hl.active.unfinished
  · have hfailed : (RunSetting.failCheckpoint s).checkpoint =
        (c.recordBatch c.nextBatch (edits.flatMap RecordEdit.files) now).fail s.world.clock := by
      rw [← hcheckpoint]
      rfl
    apply runs_imp _ _ _ (World.save_filed setting.env Checkpoint.fileName _ s.world
      hposted.keeps.ready (by decide))
    · intro _ w hw
      rw [hfailed] at hw
      obtain ⟨l', hkeeps, _, hc, _⟩ := hposted.filed (n := 0) hw fun ahead hahead =>
        .recordedFailed c ahead edits now s.world.clock hposted.holder hposted.checkpoint
          hposted.active hahead hposted.keeps.clock
      exact ends_of_keeps hkeeps hc rfl
    · exact fun _ w hw => ends_of_keeps (hposted.keeps.unfiled hw.1.unfiled) hposted.checkpoint
        hposted.active.unfinished

/-- A run that is complete saves the settled flags and then that it is complete. -/
theorem complete_ends (plan : RunPlan) (h : Works setting home b [] 0 s)
    (hstatus : s.result.status ≠ .aborted)
    (hreference : s.checkpoint.lastIndexedCommit = reference) :
    Runs (setting.complete plan) s
      (fun res t => res.status ≠ .aborted ∧
        Ends setting home b (Checkpoint.Settles reference b.shift.head t) t)
      (fun _ t => Ends setting home b Checkpoint.Unfinished t) := by
  obtain ⟨l, hl⟩ := h.between
  have hended := IndexResult.finish_ended hstatus
  -- the manifest is saved first, if flags are settled, and the checkpoint then
  apply complete_rule setting plan s fun t => ∃ m w l', t = { s with world := w, manifest := m } ∧
    b.Keeps setting.stateDir home w l' 0 ∧ l'.holder = some b.shift.run ∧
    l'.checkpoint = some s.checkpoint
  · exact fun _ => ⟨s.manifest, s.world, l, rfl, hl.keeps, hl.holder, hl.checkpoint⟩
  · intro found _ _
    have hwork : Work.apply l.manifest (.settling found s.now) =
        s.manifest.settleDivergence found s.now := by
      rw [hl.manifest]
      rfl
    have hfits := hl.fits.settleDivergence found s.now
      (s.world.unixTime_storable hl.keeps.clock)
    rw [runs_saveManifest]
    apply runs_imp _ _ _ (World.save_filed setting.env Manifest.fileName _ s.world hl.keeps.ready
      (by decide))
    · exact fun _ w hw => ⟨_, w, _, rfl, hl.filed _ hwork hfits hw, hl.holder, hl.checkpoint⟩
    · exact fun _ w hw => ends_of_keeps (hl.keeps.unfiled hw.1.unfiled) hl.checkpoint
        hl.active.unfinished
  · rintro _ ⟨m, w, l', rfl, hkeeps, hholder, hc⟩
    rw [runs_saveCheckpoint]
    apply runs_imp _ _ _ (World.save_filed setting.env Checkpoint.fileName _ w hkeeps.ready
      (by decide))
    · refine fun _ w' hw' => ⟨hended, fun hclean => ?_⟩
      have hstep := Ledger.Step.completed s.checkpoint s.Clean w.clock hholder hc hl.active
        hl.target (fun hadvance => hclean (of_decide_eq_true hadvance)) hkeeps.clock
      obtain ⟨disk, moments, hrest⟩ := hw'.rest
      refine ⟨_, _, hkeeps.filed hw' hstep (hkeeps.held.checkpointFiled hw'
        (Ledger.manifest?_congr (Ledger.works_close l' _)) rfl) ?_ fun _ hid => .inl hid, rfl, rfl,
        by rw [hrest]; rfl, ?_⟩
      · exact Nat.le_of_eq (congrArg (· + 0) (Ledger.recordCount_close hkeeps.sound _))
      · rw [← hl.target, ← hreference]
        exact if_congr (decide_eq_true_iff) rfl rfl
    · exact fun _ w' hw' => ends_of_keeps (hkeeps.unfiled hw'.1.unfiled) hc hl.active.unfinished

end RunState

/-! ### Whole runs -/

namespace RunReport

variable {σ : Type}

/-- The checkpoint that a run leaves: it is settled if the run is finished, and otherwise the run is
to be gone on with. -/
structure Leaves (report : RunReport σ) (reference head : Option String) (c : Checkpoint) :
    Prop where
  finished : report.IsFinished → c.Settles reference head report.state
  stopped : ¬ report.IsFinished → c.Unfinished

end RunReport

namespace RunSetting

open RunState

variable {σ : Type} {setting : RunSetting σ} {home : Location} {b : Book σ} {w : World σ}
  {l : Ledger}

structure Begins (b : Book σ) (l : Ledger) (c : RunContext) (w : World σ) : Prop where
  manifest : c.manifest = l.manifest
  checkpoint : (l.checkpoint = some c.checkpoint ∧ c.checkpoint.status.isResumable = true) ∨
    ∃ id, id ∉ l.ids ∧ (∃ n ≤ w.runsStarted, b.runId n = id) ∧
      (∀ c, l.checkpoint = some c → c.status = .completed) ∧
      c.checkpoint = .newRun id (l.checkpoint.bind (·.lastIndexedCommit)) none w.clock

/-- A run that begins finds what was saved, and saves nothing yet. -/
theorem openRun_begins (hkeeps : b.Keeps setting.stateDir home w l 0)
    (hfew : l.recordCount < Nat.pow 2 64) (hids : setting.env.runId = b.runId)
    (hinjective : Function.Injective b.runId) :
    Runs setting.openRun w
      (fun c w' => b.Keeps setting.stateDir home w' l 0 ∧ Begins b l c w')
      (fun _ w' => b.Keeps setting.stateDir home w' l 0) := by
  unfold openRun
  rw [runs_bind]
  apply runs_imp _ _ _ (World.lock_unfiled w hkeeps.ready)
  · rintro _ w₁ ⟨hw₁, _⟩
    have hkeeps₁ := hkeeps.unfiled hw₁
    obtain ⟨hmanifest, hcheckpoint⟩ := hkeeps₁.held.load hkeeps₁.ready hkeeps₁.sound hfew
    -- a new id was not given before
    have hnew : setting.env.runId (w₁.runsStarted + 1) ∉ l.ids := by
      intro hid
      obtain ⟨n, hn, heq⟩ := hkeeps₁.drawn _ hid
      rw [hids] at heq
      have := hinjective heq
      omega
    have hdrawn : b.Keeps setting.stateDir home
        { w₁ with runsStarted := w₁.runsStarted + 1 } l 0 :=
      ⟨hkeeps₁.ready, hkeeps₁.held, hkeeps₁.moments, hkeeps₁.clock, fun id hid => by
        obtain ⟨n, hn, heq⟩ := hkeeps₁.drawn id hid
        exact ⟨n, Nat.le_succ_of_le hn, heq⟩⟩
    have hid : ∃ n ≤ w₁.runsStarted + 1, b.runId n = setting.env.runId (w₁.runsStarted + 1) :=
      ⟨_, Nat.le_refl _, by rw [hids]⟩
    unfold openRun.liftExcept
    rw [runs_bind, runs_get, runs_bind, runs_mk_pure, hcheckpoint]
    dsimp only
    rw [runs_bind, runs_mk_pure, hmanifest]
    dsimp only
    unfold freshRunId
    cases hc : l.checkpoint with
    | none =>
      rw [runs_bind, runs_modifyGet, runs_pure]
      refine ⟨hdrawn, rfl, .inr ⟨_, hnew, hid, fun c h => ?_, by rw [hc]; rfl⟩⟩
      rw [hc] at h
      cases h
    | some c =>
      dsimp only
      split
      · rename_i hresumable
        rw [runs_pure]
        exact ⟨hkeeps₁, rfl, .inl ⟨hc, hresumable⟩⟩
      · rename_i hover
        rw [runs_bind, runs_modifyGet, runs_pure]
        refine ⟨hdrawn, rfl, .inr ⟨_, hnew, hid, fun c' h => ?_, by rw [hc]; rfl⟩⟩
        have heq : c = c' := by simpa [hc] using h
        subst heq
        have hbegun := hkeeps.sound.begun c hc
        cases hstatus : c.status <;> simp_all [RunStatus.isResumable]
  · exact fun _ w' hw' => hkeeps.unfiled hw'

theorem conclude_ends (plan : RunPlan) (flow : Except IndexError Ending) (s : RunState σ)
    (reference : Option String) (hstatus : s.result.status ≠ .aborted)
    (hreference : s.checkpoint.lastIndexedCommit = reference)
    (hok : ∀ ending, flow = .ok ending → Works setting home b [] 0 s)
    (herror : ∀ e, flow = .error e → Upset setting home b s)
    (outcome : Except IndexError IndexResult) (t : RunState σ)
    (hrun : (setting.conclude plan flow).run s = (outcome, t)) :
    Ends setting home b (RunReport.Leaves ⟨t, outcome⟩ reference b.shift.head) t := by
  -- what is not finished leaves a checkpoint that is not finished
  have hstopped {u : RunState σ} {outcome : Except IndexError IndexResult}
      (hout : ∀ res, outcome = .ok res → res.status = .aborted)
      (hu : Ends setting home b Checkpoint.Unfinished u) :
      Ends setting home b (RunReport.Leaves ⟨u, outcome⟩ reference b.shift.head) u := by
    intro hclean
    obtain ⟨l, c, hkeeps, hc, hunfinished⟩ := hu hclean
    refine ⟨l, c, hkeeps, hc, fun hfinished => ?_, fun _ => hunfinished⟩
    obtain ⟨res, hres, hended⟩ := hfinished
    exact absurd (hout res hres) hended
  have herrors (e : IndexError) (res : IndexResult)
      (h : (.error e : Except IndexError IndexResult) = .ok res) : res.status = .aborted := by
    cases h
  apply runs_outcome _ (fun outcome t =>
    Ends setting home b (RunReport.Leaves ⟨t, outcome⟩ reference b.shift.head) t) _ hrun
  apply conclude_rule setting
  · intro hflow
    apply runs_imp _ _ _ (complete_ends plan (hok _ hflow) hstatus hreference)
    · rintro res u ⟨hended, hu⟩ hclean
      obtain ⟨l, c, hkeeps, hc, hsettles⟩ := hu hclean
      exact ⟨l, c, hkeeps, hc, fun _ => hsettles,
        fun hnot => absurd ⟨res, rfl, hended⟩ hnot⟩
    · exact fun e u hu => hstopped (herrors e) hu
  · exact fun hflow => hstopped (fun res h => by cases h; rfl) (hok _ hflow).ends
  · intro cause hflow
    apply runs_imp _ _ _ (fail_ends (herror _ hflow))
    · exact fun _ u hu => hstopped (fun res h => by cases h; rfl) hu
    · exact fun e u hu => hstopped (herrors e) hu
  · exact fun e hflow => runs_imp _ _ _ (fail_ends (herror _ hflow))
      (fun _ u hu => hstopped (herrors e) hu) fun _ u hu => hstopped (herrors e) hu

/-- All saves of a run from its detection on are booked. When the first of them is refused, nothing
is saved. -/
theorem execute_keeps (hspares : setting.env.Spares setting.stateDir home) (filter : FileFilter)
    (c : RunContext) (detection : Detection) (force : Bool)
    (hkeeps : b.Keeps setting.stateDir home w l 0) (hbegins : Begins b l c w)
    (hhead : detection.head = b.shift.head) (hholder : ∀ r, l.holder = some r → r < b.shift.run) :
    Runs (setting.execute filter c detection force) w
      (fun report w' => (report.state.Clean → b.shift.clean) →
        ∃ l' c', b.Keeps setting.stateDir home w' l' 0 ∧ l'.checkpoint = some c' ∧
          report.Leaves c.reference b.shift.head c')
      (fun _ w' => b.Keeps setting.stateDir home w' l 0) := by
  have hlevel (p : Posting) (hp : p ∈ l.ahead) : p.run < b.shift.run := by
    obtain ⟨r, hr, hle⟩ := hkeeps.sound.latest p.run
      (List.mem_map_of_mem (List.mem_append_right _ hp))
    exact Nat.lt_of_le_of_lt hle (hholder r hr)
  -- the first save takes the checkpoint over
  have hbegun : ∃ l', Ledger.Step b.shift l l' ∧ l'.works = l.works ∧ l'.ahead = l.ahead ∧
      l'.checkpoint = some (({ c.checkpoint with targetCommit := detection.head } :
        Checkpoint).begin w.clock) ∧ l'.holder = some b.shift.run ∧ l'.recordCount = l.recordCount ∧
      ∀ id ∈ l'.ids, id ∈ l.ids ∨ ∃ k ≤ w.runsStarted, b.runId k = id := by
    rw [hhead]
    rcases hbegins.checkpoint with ⟨hc, hstatus⟩ | ⟨id, hid, hdrawn, hover, hc⟩
    · exact ⟨_, .resumed c.checkpoint w.clock hholder hc hstatus hkeeps.clock, rfl, rfl, rfl, rfl,
        rfl, fun _ hid => .inl hid⟩
    · refine ⟨_, .opening id w.clock hholder hover hid hkeeps.clock, rfl, rfl, ?_, rfl, rfl,
        fun i hi => ?_⟩
      · rw [hc]
        rfl
      · rcases List.mem_append.mp hi with hi | hi
        · exact .inl hi
        · rw [List.mem_singleton.mp hi]
          exact .inr hdrawn
  obtain ⟨l', hstep, hworks, hahead, hcheckpoint, hholder', hcount, hdrawn⟩ := hbegun
  unfold execute
  rw [runs_bind, runs_get, runs_bind]
  apply runs_imp _ _ _ (World.save_filed setting.env Checkpoint.fileName _ w hkeeps.ready
    (by decide))
  · intro _ w₁ hw₁
    obtain ⟨disk, moments, hrest⟩ := hw₁.rest
    have hkeeps₁ : b.Keeps setting.stateDir home w₁ l' 0 := hkeeps.filed hw₁ hstep
      (hkeeps.held.checkpointFiled hw₁ (Ledger.manifest?_congr hworks) hcheckpoint)
      (Nat.le_of_eq (congrArg (· + 0) hcount)) (by
        rw [hrest]
        exact hdrawn)
    have hmanifest : l'.manifest = c.manifest := by
      rw [hbegins.manifest, Ledger.manifest, hworks]
      rfl
    have hfits : c.manifest.Storable := hmanifest ▸ hkeeps₁.sound.fits
    rw [runs_bind, runs_get]
    dsimp only
    generalize hplan : RunPlan.mk detection.head _ _ force = plan
    have hworks₁ : Works setting home b [] 0 (setting.startState w₁ c
        (({ c.checkpoint with targetCommit := detection.head } : Checkpoint).begin w.clock)
        detection) :=
      ⟨l', [], rfl, hkeeps₁, hmanifest.symm, hfits, hcheckpoint, .inl rfl,
        hholder', hahead ▸ hlevel, rfl, hhead⟩
    generalize hs : setting.startState w₁ c _ detection = s at hworks₁
    have hstatus : s.result.status = .completed := by rw [← hs]; rfl
    have hreference : s.checkpoint.lastIndexedCommit = c.reference := by rw [← hs]; rfl
    have hbatches := runs_and _ _ _ (runBatches_works hspares plan detection.changes hworks₁)
      (runBatches_undecided plan detection.changes s)
    unfold Runs at hbatches
    rcases hflow : (runBatches setting plan detection.changes).run s with ⟨flow, t⟩
    rw [hflow] at hbatches
    have hundecided : Undecided s t := by cases flow <;> exact hbatches.2
    have hdone : t.result.status ≠ .aborted := by
      rw [hundecided.status, hstatus]
      exact fun h => by cases h
    rcases hended : (setting.conclude plan flow).run t with ⟨outcome, u⟩
    have hends := conclude_ends plan flow t c.reference hdone
      (hundecided.reference.trans hreference)
      (fun ending h => by subst h; exact hbatches.1) (fun e h => by subst h; exact hbatches.1)
      outcome u hended
    dsimp only
    rw [hended, runs_bind, runs_set, runs_pure]
    intro hclean
    obtain ⟨l'', c', hkeeps', hc', hleaves⟩ := hends hclean
    exact ⟨l'', c', hkeeps', hc', fun h => hleaves.finished ((RunReport.isFinished_noted ..).mp h),
      fun h => hleaves.stopped fun h' => h ((RunReport.isFinished_noted ..).mpr h')⟩
  · exact fun _ w' hw' => hkeeps.unfiled hw'.1.unfiled

theorem Begins.reference {c : RunContext} (h : Begins b l c w) :
    c.reference = l.checkpoint.bind (·.lastIndexedCommit) := by
  unfold RunContext.reference
  rcases h.checkpoint with ⟨hc, _⟩ | ⟨id, _, _, _, hc⟩
  · rw [hc]
    rfl
  · rw [hc]
    rfl

/-- All saves of a run are booked. A run that does not begin saves nothing. -/
theorem perform_keeps (hspares : setting.env.Spares setting.stateDir home)
    (hids : setting.env.runId = b.runId) (hinjective : Function.Injective b.runId)
    (request : RunRequest) (hkeeps : b.Keeps setting.stateDir home w l 0)
    (hfew : l.recordCount < Nat.pow 2 64) (hholder : ∀ r, l.holder = some r → r < b.shift.run)
    (hhead : ∀ c w', setting.openRun.run w = (.ok c, w') → b.shift.head = setting.headOf w'.disk)
    (hclean : ∀ report w', (setting.perform request).run w = (.ok report, w') →
      report.state.Clean → b.shift.clean) :
    ∃ l', b.Keeps setting.stateDir home ((setting.perform request).run w).2 l' 0 ∧
      match ((setting.perform request).run w).1 with
      | .ok report => ∃ c, l'.checkpoint = some c ∧
        report.Leaves (l.checkpoint.bind (·.lastIndexedCommit)) b.shift.head c
      | .error _ => l' = l := by
  -- that the run is clean is known only of its report, so it is asked of each
  have hruns : Runs (setting.perform request) w
      (fun report w' => (report.state.Clean → b.shift.clean) →
        ∃ l' c, b.Keeps setting.stateDir home w' l' 0 ∧ l'.checkpoint = some c ∧
          report.Leaves (l.checkpoint.bind (·.lastIndexedCommit)) b.shift.head c)
      (fun _ w' => b.Keeps setting.stateDir home w' l 0) := by
    rw [perform_eq, runs_bind]
    apply runs_imp _ _ _ (runs_and _ _ _ (openRun_begins hkeeps hfew hids hinjective)
      (runs_self setting.openRun))
    · rintro c w₁ ⟨⟨hkeeps₁, hbegins⟩, hrun⟩
      rw [runs_bind, runs_mk_pure, ← hbegins.reference]
      split
      · rw [runs_bind, runs_get]
        apply execute_keeps hspares _ _ _ _ hkeeps₁ hbegins _ hholder
        rw [detection_head]
        exact (hhead c w₁ hrun).symm
      · exact hkeeps₁
    · exact fun _ w₁ h => h.1
  unfold Runs at hruns
  rcases hrun : (setting.perform request).run w with ⟨outcome, w'⟩
  rw [hrun] at hruns
  cases outcome with
  | error e => exact ⟨l, hruns, rfl⟩
  | ok report =>
    obtain ⟨l', c, hkeeps', hc, hleaves⟩ := hruns (hclean report w' hrun)
    exact ⟨l', hkeeps', c, hc, hleaves⟩

end RunSetting

end CodeIndex
