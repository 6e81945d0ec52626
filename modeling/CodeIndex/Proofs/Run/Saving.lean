import CodeIndex.Proofs.Disk.Frame
import CodeIndex.Proofs.Run.Rules

namespace CodeIndex

namespace StateDir

def beside (name : String) : String := name ++ ".tmp"

def names : List String :=
  [Checkpoint.fileName, beside Checkpoint.fileName, Manifest.fileName, beside Manifest.fileName,
    World.lockName]

def kept : List String := [Checkpoint.fileName, Manifest.fileName]

def places (home : Location) : List Location := names.map fun name => home ++ [name]

def chain (done : String) : List String → List String
  | [] => []
  | name :: rest => (done ++ "/" ++ name) :: chain (done ++ "/" ++ name) rest

/-- The state directory is an ordinary directory, with ordinary files or nothing where runs write
their files. -/
structure Ready (directory : String) (home : Location) (d : Disk) : Prop where
  clean : directory.toList.any (· == Char.ofNat 0) = false
  chain : ∀ path ∈ chain "" (Disk.steps directory), d.stat path = .ok .directory
  there : d.lookup home = some .directory
  located : ∀ name ∈ names, d.locate (Path.join directory name) = .ok (home ++ [name])
  entered : ∀ name ∈ names, d.locateEntry (Path.join directory name) = .ok (home ++ [name])
  leaf : ∀ place ∈ places home, d.IsLeaf place

/-- Two disks differ only in the files that runs write. -/
def Same (home : Location) (d d' : Disk) : Prop := Disk.SameBut (places home) d d'

def content (home : Location) (d : Disk) (name : String) : Option ByteArray :=
  match d.lookup (home ++ [name]) with
  | some (.file bytes _) => some bytes
  | _ => none

theorem mem_places (home : Location) (name : String) (h : name ∈ names) :
    home ++ [name] ∈ places home := List.mem_map_of_mem h

theorem mem_kept (name : String) :
    name ∈ kept ↔ name = Checkpoint.fileName ∨ name = Manifest.fileName := by
  simp [kept]

theorem kept_subset (name : String) (h : name ∈ kept) : name ∈ names ∧ beside name ∈ names := by
  rcases (mem_kept name).mp h with rfl | rfl <;> decide

theorem places_length (home : Location) (y : Location) (h : y ∈ places home) :
    y.length = home.length + 1 := by
  obtain ⟨name, _, rfl⟩ := List.mem_map.mp h
  exact List.length_append

theorem home_outside (home : Location) : ¬ Disk.Beneath (places home) home := by
  rintro ⟨y, hy, hprefix⟩
  have hlength := places_length home y hy
  have hle := hprefix.length_le
  omega

variable {directory : String} {home : Location} {d d' : Disk}

theorem Ready.same_refl (h : Ready directory home d) : Same home d d :=
  Disk.SameBut.refl h.leaf

/-- A ready state directory stays ready when files in it are written. -/
theorem Ready.of_same (h : Ready directory home d) (hsame : Same home d d') :
    Ready directory home d' where
  clean := h.clean
  chain path hpath := Disk.stat_directory_frame hsame path (h.chain path hpath)
  there := by rw [hsame.outside home (home_outside home)]; exact h.there
  located name hname := (Disk.locate_frame hsame _ _ (h.located name hname)).1
  entered name hname := Disk.locateEntry_frame hsame _ _ (h.entered name hname)
  leaf := hsame.after

theorem makeDirectories_chain (d : Disk) (done : String) (steps : List String)
    (h : ∀ path ∈ chain done steps, d.stat path = .ok .directory) :
    d.makeDirectories done steps = .ok d := by
  induction steps generalizing done with
  | nil => rfl
  | cons name rest ih =>
    rw [Disk.makeDirectories, h _ (List.mem_cons_self)]
    exact ih _ fun path hpath => h path (List.mem_cons_of_mem _ hpath)

theorem Ready.made (h : Ready directory home d) : d.makeDirectoryAll directory = .ok d := by
  unfold Disk.makeDirectoryAll
  rw [h.clean]
  exact makeDirectories_chain d "" _ h.chain

theorem Ready.written (h : Ready directory home d) (name : String) (hname : name ∈ names)
    (bytes : ByteArray) (now : Nat) :
    d.writeFile (Path.join directory name) bytes now =
      .ok (d.put (home ++ [name]) (.file bytes now)) := by
  unfold Disk.writeFile
  rw [h.located name hname]
  dsimp only [bind, Except.bind]
  rcases h.leaf _ (mem_places home name hname) with hl | ⟨content, modified, hl⟩
  · rw [hl, List.dropLast_concat, h.there]
  · rw [hl]

theorem put_content (d : Disk) (name other : String) (bytes : ByteArray) (now : Nat) :
    content home (d.put (home ++ [name]) (.file bytes now)) other =
      if name = other then some bytes else content home d other := by
  unfold content
  rw [Disk.lookup_put d _ _ _ (by simp)]
  by_cases h : name = other
  · rw [if_pos (by rw [h]), if_pos h]
  · rw [if_neg (by simpa using h), if_neg h]

theorem Ready.renamed (h : Ready directory home d) (name : String) (hname : name ∈ kept)
    (bytes : ByteArray) (hbytes : content home d (beside name) = some bytes) :
    ∃ d', d.rename (Path.join directory (beside name)) (Path.join directory name) = .ok d' ∧
      Same home d d' ∧ content home d' name = some bytes ∧
      ∀ other ∈ kept, other ≠ name → content home d' other = content home d other := by
  obtain ⟨hin, hbeside⟩ := kept_subset name hname
  have hne : home ++ [beside name] ≠ home ++ [name] := by
    intro heq
    have hb : beside name = name := by simpa using heq
    rcases (mem_kept name).mp hname with rfl | rfl <;> exact absurd hb (by decide)
  have hlength : ∀ y ∈ places home, y.length = (home ++ [beside name]).length := by
    intro y hy
    rw [places_length home y hy, List.length_append]
    rfl
  have hsource : ∃ modified, d.lookup (home ++ [beside name]) = some (.file bytes modified) := by
    unfold content at hbytes
    split at hbytes
    · rename_i found modified hl
      cases hbytes
      exact ⟨modified, hl⟩
    · cases hbytes
  obtain ⟨modified, hsource⟩ := hsource
  refine ⟨d.transplant (home ++ [beside name]) (home ++ [name]), ?_, ?_, ?_, ?_⟩
  · unfold Disk.rename
    rw [h.entered _ hbeside, h.entered _ hin]
    dsimp only [bind, Except.bind]
    rw [hsource]
    rcases h.leaf _ (mem_places home name hin) with hl | ⟨content, modified', hl⟩
    · rw [hl]
    · rw [hl]
      simp only [if_neg hne]
  · exact Disk.transplant_sameBut h.leaf _ _ (mem_places home _ hbeside) (mem_places home _ hin)
      hne hlength
  · -- the file itself has what stood beside it
    have hfacts := Disk.lookup_transplant d (home ++ [beside name]) (home ++ [name])
      (home ++ [name]) (by simp) hne (by simp)
    unfold content
    rw [hfacts.2.1, hsource]
  · -- the other kept file is neither of the two
    intro other hother hne'
    have hfacts := Disk.lookup_transplant d (home ++ [beside name]) (home ++ [name])
      (home ++ [other]) (by simp) hne (by simp)
    unfold content
    rw [hfacts.1]
    · intro hpre
      have heq : beside name = other := by simpa using hpre.eq_of_length (by simp)
      rcases (mem_kept name).mp hname with rfl | rfl <;>
        rcases (mem_kept other).mp hother with rfl | rfl <;> exact absurd heq (by decide)
    · intro hpre
      have heq : name = other := by simpa using hpre.eq_of_length (by simp)
      exact hne' heq.symm

theorem Ready.stat (h : Ready directory home d) (name : String) (hname : name ∈ names) :
    d.stat (Path.join directory name) =
      match d.lookup (home ++ [name]) with
      | some node => .ok node
      | none => .error .notFound := by
  rw [Disk.stat, h.located name hname]
  rfl

theorem Ready.read {σ : Type} (w : World σ) (h : Ready directory home w.disk) (name : String)
    (hname : name ∈ names) :
    w.load? directory name = .ok (content home w.disk name) := by
  unfold World.load? Disk.readFile content
  rw [h.stat name hname]
  rcases h.leaf _ (mem_places home name hname) with hl | ⟨bytes, modified, hl⟩
  · rw [hl]
    rfl
  · rw [hl]
    rfl

end StateDir

namespace World

open StateDir

variable {σ : Type} {directory : String} {home : Location}

structure Saved (home : Location) (name text : String) (w w' : World σ) : Prop where
  rest : ∃ disk moments, w' = { w with disk := disk, moments := moments }
  same : Same home w.disk w'.disk
  content : content home w'.disk name = some text.toUTF8
  others : ∀ other ∈ kept, other ≠ name →
    StateDir.content home w'.disk other = StateDir.content home w.disk other
  moments : ∃ new, w'.moments = new ++ w.moments ∧ ∀ m ∈ new, m.deed = .diskWrite ∧
    m.store = w.store ∧ Same home w.disk m.disk ∧
    ∀ other ∈ kept, StateDir.content home m.disk other = StateDir.content home w.disk other ∨
      (other = name ∧ StateDir.content home m.disk other = some text.toUTF8)

theorem runs_change (act : Disk → Except DiskError Disk) (w : World σ) (d : Disk)
    (hact : act w.disk = .ok d) (Q : Unit → World σ → Prop) (E : IndexError → World σ → Prop) :
    Runs (change act) w Q E ↔ Q () (({ w with disk := d } : World σ).mark .diskWrite) := by
  unfold change
  rw [runs_bind, runs_get, hact]
  exact Iff.rfl

theorem run_change (act : Disk → Except DiskError Disk) (w : World σ) (d : Disk)
    (hact : act w.disk = .ok d) :
    (change act).run w = (.ok (), (({ w with disk := d } : World σ).mark .diskWrite)) := by
  obtain ⟨_, t, hrun, ht⟩ := runs_returns (change act)
    ((runs_change act w d hact (fun _ w' => w' = ({ w with disk := d } : World σ).mark .diskWrite)
      fun _ _ => False).mpr rfl)
  rw [hrun, ht]

theorem runs_saveStep (env : Surroundings) (hstill : env.Still)
    (act : Disk → Except DiskError Disk) (cut : Nat → Disk → Except DiskError Disk) (w : World σ)
    (Q : Unit → World σ → Prop) (E : IndexError → World σ → Prop) :
    Runs (saveStep env act cut) w Q E ↔ Runs (change act) w Q E := by
  unfold saveStep
  rw [runs_bind, runs_get, hstill.write]

theorem save_saved (env : Surroundings) (hstill : env.Still) (name text : String) (w : World σ)
    (hready : Ready directory home w.disk) (hname : name ∈ kept) :
    Runs (save env directory name text) w (fun _ w' => Saved home name text w w')
      (fun _ _ => False) := by
  obtain ⟨hin, hbeside⟩ := kept_subset name hname
  let written (bytes : ByteArray) (d : Disk) : Disk :=
    d.put (home ++ [beside name]) (.file bytes w.milliseconds)
  have hwritten (bytes : ByteArray) (d : Disk) (h : Same home w.disk d) :
      Same home w.disk (written bytes d) :=
    h.trans (Disk.put_sameBut h.after _ (mem_places home _ hbeside) bytes _)
  have hempty := hwritten .empty w.disk hready.same_refl
  have hfull := hwritten text.toUTF8 _ hempty
  have hkeep (bytes : ByteArray) (d : Disk) (other : String) (hother : other ∈ kept) :
      StateDir.content home (written bytes d) other = StateDir.content home d other := by
    rw [put_content, if_neg]
    intro heq
    rcases (mem_kept name).mp hname with rfl | rfl <;>
      rcases (mem_kept other).mp hother with rfl | rfl <;> exact absurd heq (by decide)
  -- the file beside is renamed over the one that is saved
  obtain ⟨d', hrename, hsame', hcontent, hothers⟩ := (hready.of_same hfull).renamed name hname
    text.toUTF8 (by rw [put_content, if_pos rfl])
  have hothers' (other : String) (hother : other ∈ kept) (hne : other ≠ name) :
      StateDir.content home d' other = StateDir.content home w.disk other := by
    rw [hothers other hother hne, hkeep _ _ _ hother, hkeep _ _ _ hother]
  unfold save
  dsimp only
  rw [runs_bind, runs_saveStep env hstill, runs_change _ _ _ hready.made, runs_bind, runs_get,
    runs_bind, runs_saveStep env hstill, runs_change _ _ _ (hready.written _ hbeside _ _),
    runs_bind, runs_saveStep env hstill,
    runs_change _ _ _ ((hready.of_same hempty).written _ hbeside _ _),
    runs_saveStep env hstill, runs_change _ _ _ hrename]
  refine ⟨⟨_, _, rfl⟩, hfull.trans hsame', hcontent, hothers', ?_⟩
  refine ⟨[⟨.diskWrite, d', w.store⟩, ⟨.diskWrite, written text.toUTF8 (written .empty w.disk),
    w.store⟩, ⟨.diskWrite, written .empty w.disk, w.store⟩, ⟨.diskWrite, w.disk, w.store⟩],
    rfl, ?_⟩
  intro m hm
  simp only [List.mem_cons, List.not_mem_nil, or_false] at hm
  -- the moments of the save, the latest first: only the last step changes what is kept
  rcases hm with rfl | rfl | rfl | rfl
  · refine ⟨rfl, rfl, hfull.trans hsame', ?_⟩
    intro other hother
    by_cases hne : other = name
    · exact .inr ⟨hne, hne ▸ hcontent⟩
    · exact .inl (hothers' other hother hne)
  · refine ⟨rfl, rfl, hfull, fun other hother => .inl ?_⟩
    rw [hkeep _ _ _ hother, hkeep _ _ _ hother]
  · refine ⟨rfl, rfl, hempty, fun other hother => .inl ?_⟩
    rw [hkeep _ _ _ hother]
  · exact ⟨rfl, rfl, hready.same_refl, fun other hother => .inl rfl⟩

/-- Taking the lock of a ready state directory succeeds, unless it is held. -/
theorem lock_taken (w : World σ) (hready : Ready directory home w.disk)
    (Q : Unit → World σ → Prop) (E : IndexError → World σ → Prop)
    (hfree : ∀ w', (∃ disk moments, w' = { w with disk := disk, moments := moments }) →
      Same home w.disk w'.disk →
      (∀ name ∈ kept, content home w'.disk name = content home w.disk name) → Q () w')
    (hheld : home ++ [lockName] ∈ w.held →
      ∀ w', E (.lockConflict (Path.join directory lockName)) w') :
    Runs (lock directory) w Q E := by
  have hin : lockName ∈ names := by decide
  have hplace := mem_places home lockName hin
  unfold lock
  dsimp only
  rw [runs_bind, runs_change _ _ _ hready.made, runs_bind, runs_get]
  have hstat := hready.stat lockName hin
  generalize hmade : ({ w with disk := w.disk } : World σ).mark .diskWrite = made
  have hdisk : made.disk = w.disk := by rw [← hmade]; rfl
  have hheldmade : made.held = w.held := by rw [← hmade]; rfl
  have hrest : ∃ disk moments, made = { w with disk := disk, moments := moments } := by
    rw [← hmade]
    exact ⟨_, _, rfl⟩
  rw [hdisk]
  rcases hready.leaf _ hplace with hl | ⟨bytes, modified, hl⟩
  · -- there is no lock file yet
    rw [hl] at hstat
    rw [hstat]
    dsimp only
    have hwrite : made.disk.writeFile (Path.join directory lockName) .empty made.milliseconds =
        .ok (w.disk.put (home ++ [lockName]) (.file .empty made.milliseconds)) := by
      rw [hdisk]
      exact hready.written lockName hin _ _
    rw [runs_change _ _ _ hwrite]
    apply hfree
    · obtain ⟨disk, moments, heq⟩ := hrest
      rw [heq]
      exact ⟨_, _, rfl⟩
    · exact Disk.put_sameBut hready.leaf _ hplace _ _
    · intro name hname
      show content home (w.disk.put (home ++ [lockName]) _) name = content home w.disk name
      rw [put_content, if_neg]
      intro heq
      rcases (mem_kept name).mp hname with rfl | rfl <;> exact absurd heq (by decide)
  · rw [hl] at hstat
    rw [hstat, hready.located lockName hin]
    dsimp only
    rw [hheldmade]
    split
    · rename_i hconflict
      rw [runs_throw]
      apply hheld
      exact List.contains_iff_mem.mp hconflict
    · rw [runs_pure]
      apply hfree made hrest
      · rw [hdisk]
        exact hready.same_refl
      · intro name _
        rw [hdisk]

end World

namespace RunState

open StateDir

variable {σ : Type} {home : Location}

structure Committed (home : Location) (files : List String) (s t : RunState σ) : Prop where
  same : Same home s.world.disk t.world.disk
  manifestText : content home t.world.disk Manifest.fileName = some s.manifest.fileText.toUTF8
  checkpointText : content home t.world.disk Checkpoint.fileName =
    some t.checkpoint.fileText.toUTF8
  core : t.core = { s.core with disk := t.world.disk, moments := t.world.moments }
  checkpoint : t.checkpoint = s.checkpoint.recordBatch s.batchIndex files s.world.clock
  batchIndex : t.batchIndex = s.batchIndex + 1
  clock : t.world.clock = s.world.clock
  optimizer : t.optimizer = s.optimizer
  cancelled : t.world.isCancelled = s.world.isCancelled
  unread : t.unreadable = s.unreadable
  errors : t.result.errors = s.result.errors
  requests : t.world.requests = s.world.requests
  moments : ∃ new, t.world.moments =
      ⟨.batchSaved, t.world.disk, s.world.store⟩ :: (new ++ s.world.moments) ∧
    ∀ m ∈ new, m.deed = .diskWrite ∧ m.store = s.world.store ∧ Same home s.world.disk m.disk ∧
      (content home m.disk Manifest.fileName = content home s.world.disk Manifest.fileName ∨
        content home m.disk Manifest.fileName = some s.manifest.fileText.toUTF8)

/-- In a ready state directory a batch is committed: first the manifest, then the checkpoint. -/
theorem commitBatch_committed (setting : RunSetting σ) (hstill : setting.env.Still)
    (files : List String) (s : RunState σ)
    (hready : Ready setting.stateDir home s.world.disk) :
    Runs (commitBatch setting files) s (fun _ t => Committed home files s t)
      (fun _ _ => False) := by
  have hdistinct : Manifest.fileName ≠ Checkpoint.fileName := by decide
  unfold commitBatch saveManifest saveCheckpoint
  simp only [runs_bind, runs_get, runs_inWorld, runs_modify]
  apply runs_imp _ _ _ (World.save_saved setting.env hstill Manifest.fileName
    s.manifest.fileText s.world hready (by decide))
  · intro _ w hw
    obtain ⟨disk, moments, hrest⟩ := hw.rest
    have hready' : Ready setting.stateDir home w.disk := hready.of_same hw.same
    apply runs_imp _ _ _ (World.save_saved setting.env hstill Checkpoint.fileName _ w hready'
      (by decide))
    · intro _ w' hw'
      obtain ⟨disk', moments', hrest'⟩ := hw'.rest
      have hmanifest : content home w'.disk Manifest.fileName =
          some s.manifest.fileText.toUTF8 := by
        rw [hw'.others _ (by decide) hdistinct]
        exact hw.content
      obtain ⟨new, hnew, hall⟩ := hw.moments
      obtain ⟨new', hnew', hall'⟩ := hw'.moments
      have hstore : w.store = s.world.store := by rw [hrest]
      have hstore' : w'.store = s.world.store := by rw [hrest', hrest]
      refine ⟨hw.same.trans hw'.same, hmanifest, ?_, ?_, ?_, rfl, ?_, rfl, ?_, rfl, rfl, ?_, ?_⟩
      · rw [show (w'.mark .batchSaved).disk = w'.disk from rfl, hw'.content]
      · show (_ : Core σ) = _
        simp only [core, World.mark, hrest', hrest]
      · simp only [hrest]
      · simp only [World.mark, hrest', hrest]
      · simp only [World.mark, hrest', hrest]
      · simp only [World.mark, hrest', hrest]
      · -- the latest moments come first
        refine ⟨new' ++ new, ?_, ?_⟩
        · show ⟨.batchSaved, w'.disk, w'.store⟩ :: w'.moments = _
          rw [hnew', hnew, hstore', List.append_assoc]
          rfl
        · intro m hm
          rcases List.mem_append.mp hm with hm | hm
          · -- once the manifest is saved the second save leaves it
            obtain ⟨hdeed, hms, hsame, hcontent⟩ := hall' m hm
            refine ⟨hdeed, hms.trans hstore, hw.same.trans hsame, .inr ?_⟩
            rcases hcontent _ (by decide : Manifest.fileName ∈ kept) with h | ⟨h, _⟩
            · rw [h]
              exact hw.content
            · exact absurd h hdistinct
          · obtain ⟨hdeed, hms, hsame, hcontent⟩ := hall m hm
            refine ⟨hdeed, hms, hsame, ?_⟩
            rcases hcontent _ (by decide : Manifest.fileName ∈ kept) with h | ⟨_, h⟩
            · exact .inl h
            · exact .inr h
    · intro e w' hw'
      exact hw'
  · intro e w hw
    exact hw

end RunState

end CodeIndex
