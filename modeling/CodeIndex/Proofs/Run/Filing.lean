import CodeIndex.Proofs.Run.Execute
import CodeIndex.Proofs.Run.Ledger

/-!
The saves of a run in whatever surroundings. Calls may fail, the tree may change and every write may
be refused or cut short, as long as nobody else touches the files of the state directory. Then each
of these files changes only when a save goes through to its end.
-/

namespace CodeIndex

open StateDir

namespace StateDir

structure Spared (directory : String) (home : Location) (d d' : Disk) : Prop where
  ready : Ready directory home d'
  kept : ∀ name ∈ kept, content home d' name = content home d name

variable {directory : String} {home : Location} {d d' d'' : Disk}

theorem Ready.spared (h : Ready directory home d) : Spared directory home d d := ⟨h, fun _ _ => rfl⟩

theorem Spared.trans (h : Spared directory home d d') (h' : Spared directory home d' d'') :
    Spared directory home d d'' :=
  ⟨h'.ready, fun name hname => (h'.kept name hname).trans (h.kept name hname)⟩

theorem beside_not_kept (name other : String) (hname : name ∈ kept) (hother : other ∈ kept) :
    beside name ≠ other := by
  rcases (mem_kept name).mp hname with rfl | rfl <;>
    rcases (mem_kept other).mp hother with rfl | rfl <;> decide

theorem Ready.beside_spared (h : Ready directory home d) (name : String) (hname : name ∈ kept)
    (bytes : ByteArray) (now : Nat) :
    Spared directory home d (d.put (home ++ [beside name]) (.file bytes now)) where
  ready := h.of_same (Disk.put_sameBut h.leaf _ (mem_places home _ (kept_subset name hname).2) _ _)
  kept other hother := by rw [put_content, if_neg (beside_not_kept name other hname hother)]

end StateDir

/-- Surroundings that leave the files of a state directory alone, whatever else they do. -/
structure Surroundings.Spares (env : Surroundings) (directory : String) (home : Location) :
    Prop where
  request : ∀ n d, Ready directory home d → Spared directory home d (env.atRequest n d)
  store : ∀ call n f, env.atStore call n = .alter f →
    ∀ d, Ready directory home d → Spared directory home d (f d)

theorem Surroundings.Still.spares {env : Surroundings} (h : env.Still) (directory : String)
    (home : Location) : env.Spares directory home where
  request n d hd := by
    rw [h.request]
    exact hd.spared
  store call n f hf := absurd hf (h.store call n f)

namespace World

variable {σ α : Type} {directory : String} {home : Location}

structure Unfiled (directory : String) (home : Location) (w w' : World σ) : Prop where
  disk : Spared directory home w.disk w'.disk
  moments : ∃ new, w'.moments = new ++ w.moments ∧
    ∀ m ∈ new, Spared directory home w.disk m.disk
  clock : w.clock.Valid → w'.clock.Valid
  runsStarted : w'.runsStarted = w.runsStarted

variable {w w' w'' : World σ}

theorem Unfiled.refl (h : Ready directory home w.disk) : Unfiled directory home w w :=
  ⟨h.spared, ⟨[], rfl, fun _ hm => absurd hm List.not_mem_nil⟩, id, rfl⟩

theorem Unfiled.trans (h : Unfiled directory home w w') (h' : Unfiled directory home w' w'') :
    Unfiled directory home w w'' := by
  obtain ⟨new, hnew, hall⟩ := h.moments
  obtain ⟨new', hnew', hall'⟩ := h'.moments
  refine ⟨h.disk.trans h'.disk, ⟨new' ++ new, ?_, fun m hm => ?_⟩, fun hc => h'.clock (h.clock hc),
    h'.runsStarted.trans h.runsStarted⟩
  · rw [hnew', hnew, List.append_assoc]
  · rcases List.mem_append.mp hm with hm | hm
    · exact h.disk.trans (hall' m hm)
    · exact hall m hm

/-- A change of the tree that spares the state directory, and what else is no matter to it. -/
theorem Unfiled.of_disk (hdisk : Spared directory home w.disk w'.disk)
    (hmoments : w'.moments = w.moments) (hclock : w'.clock = w.clock)
    (hruns : w'.runsStarted = w.runsStarted) : Unfiled directory home w w' :=
  ⟨hdisk, ⟨[], hmoments, fun _ hm => absurd hm List.not_mem_nil⟩, fun h => hclock ▸ h, hruns⟩

theorem Unfiled.mark (h : Unfiled directory home w w') (deed : Deed) :
    Unfiled directory home w (w'.mark deed) :=
  h.trans ⟨h.disk.ready.spared, ⟨[⟨deed, w'.disk, w'.store⟩], rfl, fun m hm => by
    rw [List.mem_singleton.mp hm]
    exact h.disk.ready.spared⟩, id, rfl⟩

theorem Unfiled.wait (h : Unfiled directory home w w') (d : Duration) :
    Unfiled directory home w (w'.wait d) := by
  refine h.trans ?_
  by_cases hyear : Date.yearInRange (w'.clock.advance d).date.year = true
  · have heq : w'.wait d = { w' with clock := w'.clock.advance d } := by
      simp only [World.wait, hyear, if_true]
    rw [heq]
    exact ⟨h.disk.ready.spared, ⟨[], rfl, fun _ hm => absurd hm List.not_mem_nil⟩,
      fun hc => Timestamp.advance_valid _ _ hc hyear, rfl⟩
  · have heq : w'.wait d = w' := by
      simp only [World.wait, hyear]
      rfl
    rw [heq]
    exact .refl h.disk.ready

section Calls

variable {env : Surroundings} (hspares : env.Spares directory home) (store : VectorStore σ)

include hspares

theorem reachOne_unfiled (call : StoreCall) (x : StoreM σ α)
    (hw : Unfiled directory home w w') :
    Runs (reachOne env call x) w' (fun _ w'' => Unfiled directory home w w'')
      (fun _ w'' => Unfiled directory home w w'') := by
  apply runs_reachOne env
  · exact fun _ _ => hw.trans (.of_disk hw.disk.ready.spared rfl rfl rfl)
  · intro disk hdisk
    have hspared : Spared directory home w'.disk disk := by
      rcases hdisk with ⟨_, rfl⟩ | ⟨f, hhook, rfl⟩
      · exact hw.disk.ready.spared
      · exact hspares.store _ _ f hhook _ hw.disk.ready
    have hst (st : σ) :
        Unfiled directory home w { w'.counted call with disk := disk, store := st } :=
      hw.trans (.of_disk hspared rfl rfl rfl)
    exact runs_any _ _ _ _ (fun _ st => (hst st).mark _) fun _ st => hst st

theorem deleteFile_unfiled (path : String) (h : Ready directory home w.disk) :
    Runs ((reach env store).deleteFile path) w (fun _ w' => Unfiled directory home w w')
      (fun _ w' => Unfiled directory home w w') :=
  deleteFile_kept env store (Unfiled directory home w)
    (fun call x _ => reachOne_unfiled hspares call x) w (.refl h) path

theorem renameFile_unfiled (source target : String) (had : Bool)
    (h : Ready directory home w.disk) :
    Runs ((reach env store).renameFile source target had) w
      (fun _ w' => Unfiled directory home w w') (fun _ w' => Unfiled directory home w w') :=
  renameFile_kept env store (Unfiled directory home w)
    (fun call x _ => reachOne_unfiled hspares call x) w (.refl h) source target had

theorem updateFile_unfiled (path : String) (previous current : Std.ExtTreeSet String)
    (embedded : List EmbeddedEntity) (hasRecord : Bool) (h : Ready directory home w.disk) :
    Runs ((reach env store).updateFile path previous current embedded hasRecord) w
      (fun _ w' => Unfiled directory home w w') (fun _ w' => Unfiled directory home w w') :=
  updateFile_kept env store (Unfiled directory home w)
    (fun call x _ => reachOne_unfiled hspares call x) w (.refl h) path previous current embedded
    hasRecord

end Calls

structure Refused (directory : String) (home : Location) (w w' : World σ) : Prop where
  unfiled : Unfiled directory home w w'
  rest : ∃ disk moments, w' = { w with disk := disk, moments := moments }

theorem Refused.refl (h : Ready directory home w.disk) : Refused directory home w w :=
  ⟨.refl h, _, _, rfl⟩

/-- Another write that spares the files of the state directory. -/
theorem Refused.next (h : Refused directory home w w') {d : Disk}
    (hd : Spared directory home w'.disk d) :
    Refused directory home w (({ w' with disk := d } : World σ).mark .diskWrite) := by
  have hdisk : Unfiled directory home w' ({ w' with disk := d } : World σ) :=
    .of_disk hd rfl rfl rfl
  refine ⟨(h.unfiled.trans hdisk).mark _, ?_⟩
  obtain ⟨disk, moments, hrest⟩ := h.rest
  rw [hrest]
  exact ⟨_, _, rfl⟩

/-- A save went through: at its last moment the file is the new one, and nothing has changed
before. -/
structure Filed (directory : String) (home : Location) (name text : String) (w w' : World σ) :
    Prop where
  ready : Ready directory home w'.disk
  content : content home w'.disk name = some text.toUTF8
  others : ∀ other ∈ kept, other ≠ name →
    StateDir.content home w'.disk other = StateDir.content home w.disk other
  moments : ∃ last new, w'.moments = last :: (new ++ w.moments) ∧ last.disk = w'.disk ∧
    ∀ m ∈ new, Spared directory home w.disk m.disk
  rest : ∃ disk moments, w' = { w with disk := disk, moments := moments }

/-- A step of a save is taken, or it is refused and spares the files of the state directory. -/
theorem saveStep_cases (env : Surroundings) (act : Disk → Except DiskError Disk)
    (cut : Nat → Disk → Except DiskError Disk) (h : Refused directory home w w') {d : Disk}
    (hact : act w'.disk = .ok d)
    (hcut : ∀ written left, cut written w'.disk = .ok left → Spared directory home w'.disk left)
    (Q : Unit → World σ → Prop)
    (hdone : Q () (({ w' with disk := d } : World σ).mark .diskWrite)) :
    Runs (saveStep env act cut) w' Q
      (fun e w'' => Refused directory home w w'' ∧ ∀ cause, e ≠ .storeWrite cause) := by
  unfold saveStep
  rw [runs_bind, runs_get]
  split
  · exact (runs_change act w' d hact _ _).mpr hdone
  · rename_i cause written _
    simp only [runs_bind, runs_set, runs_throw]
    refine ⟨h.next ?_, fun c heq => by cases heq⟩
    cases hleft : cut written w'.disk with
    | error e => exact h.unfiled.disk.ready.spared
    | ok left => exact hcut written left hleft

/-- A file of a ready state directory is saved, or the save is refused. -/
theorem save_filed (env : Surroundings) (name text : String) (w : World σ)
    (hready : Ready directory home w.disk) (hname : name ∈ kept) :
    Runs (save env directory name text) w (fun _ w' => Filed directory home name text w w')
      (fun e w' => Refused directory home w w' ∧ ∀ cause, e ≠ .storeWrite cause) := by
  obtain ⟨hin, hbeside⟩ := kept_subset name hname
  have hnothing (v : World σ) (hv : Refused directory home w v) (left : Disk)
      (h : (Except.ok v.disk : Except DiskError Disk) = .ok left) :
      Spared directory home v.disk left := by
    cases h
    exact hv.unfiled.disk.ready.spared
  unfold save
  dsimp only
  have h₀ : Refused directory home w w := .refl hready
  -- at each step the surroundings may refuse it, which leaves what is kept spared
  rw [runs_bind]
  apply saveStep_cases env _ _ h₀ hready.made fun _ => hnothing w h₀
  have h₁ := h₀.next hready.spared
  generalize ({ w with disk := w.disk } : World σ).mark .diskWrite = w₁ at h₁ ⊢
  have hready₁ := h₁.unfiled.disk.ready
  rw [runs_bind, runs_get, runs_bind]
  apply saveStep_cases env _ _ h₁ (hready₁.written _ hbeside _ _) fun _ => hnothing w₁ h₁
  have h₂ := h₁.next (hready₁.beside_spared name hname .empty w₁.milliseconds)
  generalize (({ w₁ with disk := _ } : World σ).mark .diskWrite) = w₂ at h₂ ⊢
  have hready₂ := h₂.unfiled.disk.ready
  rw [runs_bind]
  apply saveStep_cases env _ _ h₂ (hready₂.written _ hbeside _ _)
  · intro written left hleft
    have hwritten := hready₂.written _ hbeside (text.toUTF8.extract 0 written) w₁.milliseconds
    cases hwritten.symm.trans hleft
    exact hready₂.beside_spared name hname _ _
  have h₃ := h₂.next (hready₂.beside_spared name hname text.toUTF8 w₁.milliseconds)
  have htext : content home (w₂.disk.put (home ++ [beside name])
      (.file text.toUTF8 w₁.milliseconds)) (beside name) = some text.toUTF8 := by
    rw [put_content, if_pos rfl]
  obtain ⟨d, hrename, hsame, hcontent, hothers⟩ := h₃.unfiled.disk.ready.renamed name hname _ htext
  apply saveStep_cases env _ _ h₃ hrename fun _ => hnothing _ h₃
  obtain ⟨disk, moments, hrest⟩ := h₃.rest
  obtain ⟨new, hnew, hall⟩ := h₃.unfiled.moments
  refine ⟨h₃.unfiled.disk.ready.of_same hsame, hcontent, fun other hother hne => ?_,
    ⟨⟨.diskWrite, d, _⟩, new, by rw [← hnew]; rfl, rfl, hall⟩, ?_⟩
  · exact (hothers other hother hne).trans (h₃.unfiled.disk.kept other hother)
  · rw [hrest]
    exact ⟨_, _, rfl⟩

theorem lock_unfiled (w : World σ) (hready : Ready directory home w.disk) :
    Runs (lock directory) w (fun _ w' => Unfiled directory home w w' ∧ w'.clock = w.clock)
      (fun _ w' => Unfiled directory home w w') := by
  have hin : lockName ∈ names := by decide
  unfold lock
  dsimp only
  rw [runs_bind, runs_change _ _ _ hready.made, runs_bind, runs_get]
  have hmade : Unfiled directory home w (({ w with disk := w.disk } : World σ).mark .diskWrite) :=
    (Unfiled.refl hready).mark _
  have hclock : (({ w with disk := w.disk } : World σ).mark .diskWrite).clock = w.clock := rfl
  generalize ({ w with disk := w.disk } : World σ).mark .diskWrite = made at hmade hclock ⊢
  have hready' := hmade.disk.ready
  rw [hready'.stat lockName hin]
  -- the lock file is written unless it is there
  rcases hready'.leaf _ (mem_places home lockName hin) with hl | ⟨bytes, modified, hl⟩
  · rw [hl]
    dsimp only
    rw [runs_change _ _ _ (hready'.written lockName hin _ _)]
    have hput : Spared directory home made.disk
        (made.disk.put (home ++ [lockName]) (.file .empty made.milliseconds)) :=
      ⟨hready'.of_same (Disk.put_sameBut hready'.leaf _ (mem_places home lockName hin) _ _),
        fun name hname => by
          rw [put_content, if_neg]
          rcases (mem_kept name).mp hname with rfl | rfl <;> decide⟩
    have hdisk : Unfiled directory home made { made with
        disk := made.disk.put (home ++ [lockName]) (.file .empty made.milliseconds) } :=
      .of_disk hput rfl rfl rfl
    exact ⟨(hmade.trans hdisk).mark _, hclock⟩
  · rw [hl]
    dsimp only
    split
    · exact hmade
    · exact ⟨hmade, hclock⟩

end World

namespace RunState

variable {σ : Type} {setting : RunSetting σ} {home : Location}

structure Unsaved (setting : RunSetting σ) (home : Location) (s t : RunState σ) : Prop where
  world : World.Unfiled setting.stateDir home s.world t.world
  manifest : t.manifest = s.manifest
  checkpoint : t.checkpoint = s.checkpoint
  batchIndex : t.batchIndex = s.batchIndex

variable {s t u : RunState σ}

theorem Unsaved.refl (h : Ready setting.stateDir home s.world.disk) : Unsaved setting home s s :=
  ⟨.refl h, rfl, rfl, rfl⟩

theorem Unsaved.ready (h : Unsaved setting home s t) : Ready setting.stateDir home t.world.disk :=
  h.world.disk.ready

section Embedding

variable (hspares : setting.env.Spares setting.stateDir home)

include hspares

theorem embedAll_unsaved (texts : List String) (h : Unsaved setting home s t) :
    Runs (embedAll setting texts) t (fun _ u => Unsaved setting home s u)
      (fun _ u => Unsaved setting home s u) := by
  have hunsaved {u : RunState σ} (hu : Embedded t u)
      (hw : World.Unfiled setting.stateDir home t.world u.world) : Unsaved setting home s u := by
    obtain ⟨_, _, _, rfl⟩ := hu
    exact ⟨h.world.trans hw, h.manifest, h.checkpoint, h.batchIndex⟩
  apply runs_imp _ _ _ (embedAll_rule setting
    (fun _ w => World.Unfiled setting.stateDir home t.world w) texts t
    (fun _ _ d hw => hw.wait d) ?_ (.refl h.ready))
  · rintro _ u ⟨hu, _, _, _, hw⟩
    exact hunsaved hu hw
  · rintro _ u ⟨hu, _, _, hw⟩
    exact hunsaved hu hw
  · intro texts w size _ hw
    have hrequested : World.Unfiled setting.stateDir home w
        (w.requested setting.env (texts.take size)) :=
      .of_disk (hspares.request _ _ hw.disk.ready) rfl rfl rfl
    exact ⟨hw.trans hrequested, hw.trans hrequested⟩

end Embedding

end RunState

end CodeIndex
