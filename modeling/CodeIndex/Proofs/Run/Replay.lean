import CodeIndex.Proofs.Run.Calm
import CodeIndex.Proofs.Run.Described

/-!
What the batches of a run come to, however its files are cut into batches and the texts of a batch
into requests. Files are written one after the other, each with the vectors of its own texts; so
the store and the records are those of a replay that knows of no batches.
-/

namespace CodeIndex

open StateDir

structure Contents where
  store : MemoryStore
  manifest : Manifest
  missed : Nat

structure Contents.Alike (a b : Contents) : Prop where
  store : a.store = b.store
  records : ∀ p, a.manifest.get? p = b.manifest.get? p
  missed : a.missed = b.missed

theorem Contents.Alike.trans {a b c : Contents} (h : a.Alike b) (h' : b.Alike c) : a.Alike c :=
  ⟨h.store.trans h'.store, fun p => (h.records p).trans (h'.records p), h.missed.trans h'.missed⟩

theorem Contents.Alike.symm {a b : Contents} (h : a.Alike b) : b.Alike a :=
  ⟨h.store.symm, fun p => (h.records p).symm, h.missed.symm⟩

def PreparedFile.edits (vector : String → Embedding) (file : PreparedFile) : List StoreEdit :=
  World.updateEdits file.path file.previousIds file.currentIds
    (RunState.withVectors file.fresh (file.fresh.map fun e => vector e.text)) file.hasRecord

namespace Contents

variable (vector : String → Embedding) (plan : RunPlan)

def write (c : Contents) (file : PreparedFile) : Contents :=
  { c with
    store := (file.edits vector).foldl (fun s edit => edit.apply s) c.store
    manifest := c.manifest.recordIndexed (RunState.recordOf plan file) .zero }

def missing (c : Contents) (n : Nat) : Contents := { c with missed := c.missed + n }

def shaped (c : Contents) (shape : Shape) : Contents where
  store := shape.edits.foldl (fun s edit => edit.apply s) c.store
  manifest := shape.manifest
  missed := c.missed + shape.unread

def gather (c : Contents) (prepared : List Prepared) : Contents :=
  ((prepared.filterMap Prepared.file?).foldl (write vector plan) c).missing
    (prepared.countP fun next => next.file?.isNone)

variable {vector plan} {a b : Contents}

theorem Alike.write (h : a.Alike b) (file : PreparedFile) :
    (a.write vector plan file).Alike (b.write vector plan file) where
  store := by
    unfold Contents.write
    rw [h.store]
  records p := by
    unfold Contents.write
    rw [Manifest.get?_recordIndexed, Manifest.get?_recordIndexed, h.records]
  missed := h.missed

theorem missing_missing (c : Contents) (n k : Nat) :
    (c.missing n).missing k = c.missing (n + k) := by
  unfold Contents.missing
  rw [Nat.add_assoc]

theorem foldl_write_missing (files : List PreparedFile) (c : Contents) (n : Nat) :
    files.foldl (Contents.write vector plan) (c.missing n) =
      (files.foldl (Contents.write vector plan) c).missing n := by
  induction files generalizing c with
  | nil => rfl
  | cons file files ih => exact ih (c.write vector plan file)

end Contents

namespace RunSetting

variable {σ : Type} (setting : RunSetting σ) (plan : RunPlan)

def preparations (changes : ChangeSet) (d : Disk) (m : Manifest) : List Prepared :=
  let shape := Shape.ofChanges plan (setting.hashOf d) changes m
  (sortedPaths (changes.added ++ changes.modified ++ shape.reindex)).map fun p =>
    prepare setting plan.force d (WorkItem.ofPath shape.manifest p)

/-- What some changes lead to in a tree: deletions and renames first, then one file after the
other. -/
def replay (vector : String → Embedding) (changes : ChangeSet) (d : Disk) (c : Contents) :
    Contents :=
  let shape := Shape.ofChanges plan (setting.hashOf d) changes c.manifest
  Contents.gather vector plan
    { store := shape.edits.foldl (fun s edit => edit.apply s) c.store
      manifest := shape.manifest
      missed := c.missed + shape.unread }
    (setting.preparations plan changes d c.manifest)

variable {plan} in
/-- The paths that are left once deletions and renames are done are to be written. -/
theorem writes_of_mem {changes : ChangeSet} {hashOf : String → Option ContentHash} {m : Manifest}
    {p : String} (h : p ∈ sortedPaths (changes.added ++ changes.modified ++
      (Shape.ofChanges plan hashOf changes m).reindex)) : changes.Writes p := by
  refine ChangeSet.writes_of_left (fun q hq => ?_) h
  obtain ⟨ends, hends, rfl⟩ := Shape.ofChanges_reindex plan hashOf changes m q hq
  exact .inr (.inr ⟨ends, hends, rfl⟩)

variable {setting plan} in
/-- What some changes are prepared to are files that they write. -/
theorem mem_preparations {changes : ChangeSet} {d : Disk} {m : Manifest} {next : Prepared}
    (h : next ∈ setting.preparations plan changes d m) :
    ∃ p m', changes.Writes p ∧ next = prepare setting plan.force d (WorkItem.ofPath m' p) := by
  unfold preparations at h
  obtain ⟨p, hp, rfl⟩ := List.mem_map.mp h
  exact ⟨p, _, writes_of_mem hp, rfl⟩

end RunSetting

namespace RunState

theorem withVectors_append (entities : List Entity) (f : Entity → Embedding)
    (more : List Embedding) :
    withVectors entities (entities.map f ++ more) = withVectors entities (entities.map f) := by
  unfold withVectors
  induction entities with
  | nil => rfl
  | cons entity entities ih =>
    simp only [List.map_cons, List.cons_append, List.zip_cons_cons]
    rw [ih]

def contents (s : RunState MemoryStore) : Contents := ⟨s.world.store, s.manifest, s.core.missed⟩

theorem contents_of_core {s t : RunState MemoryStore} (h : t.core = s.core) :
    t.contents = s.contents := by
  have hstore : t.world.store = s.world.store := congrArg Core.store h
  unfold contents
  rw [hstore, core_manifest h, core_missed h]

def GaveUp (prepared : List Prepared) (t : RunState MemoryStore) : Prop :=
  ∃ failure ∈ t.result.errors, ∃ file, .ready file ∈ prepared ∧ file.path = failure.path

/-- Why a file may fail in a run: it failed as it was prepared, or the provider is one that may
fail. -/
def Excused (setting : RunSetting MemoryStore) (prepared : List Prepared)
    (failure : FileFailure) : Prop :=
  (∃ e, .failed failure.path e ∈ prepared) ∨
    ((∃ file, .ready file ∈ prepared ∧ file.path = failure.path) ∧
      ∀ vector, ¬ setting.Faithful vector)

/-- A run that reads the tree as it was has these contents, unless it gave up a file that was
ready. -/
structure Replayed (setting : RunSetting MemoryStore) (home : Location)
    (s : RunState MemoryStore) (prepared : List Prepared) (c : Contents)
    (t : RunState MemoryStore) : Prop where
  same : Same home s.world.disk t.world.disk
  sound : t.optimizer.Sound
  excused : ∀ failure ∈ t.result.errors, Excused setting prepared failure
  contents : GaveUp prepared t ∨ t.contents.Alike c

variable {setting : RunSetting MemoryStore} {home : Location} {s t u : RunState MemoryStore}
  {prepared : List Prepared} {c : Contents} {vector : String → Embedding} {plan : RunPlan}

theorem GaveUp.of_errors (h : GaveUp prepared t)
    (herrors : ∀ failure ∈ t.result.errors, failure ∈ u.result.errors) : GaveUp prepared u := by
  obtain ⟨failure, hfailure, hfile⟩ := h
  exact ⟨failure, herrors failure hfailure, hfile⟩

theorem Replayed.still (h : Replayed setting home s prepared c t)
    (hsame : Same home s.world.disk u.world.disk) (hsound : u.optimizer.Sound)
    (hcontents : u.contents = t.contents) (herrors : u.result.errors = t.result.errors) :
    Replayed setting home s prepared c u where
  same := hsame
  sound := hsound
  excused failure hfailure := h.excused failure (herrors ▸ hfailure)
  contents := by
    rcases h.contents with hgave | halike
    · exact .inl (hgave.of_errors fun _ hf => herrors ▸ hf)
    · exact .inr (hcontents ▸ halike)

theorem Replayed.quiet (h : Replayed setting home s prepared c t)
    (hq : Quiet setting.env t u) : Replayed setting home s prepared c u := by
  apply h.still _ (hq.optimizer h.sound) (contents_of_core hq.core) hq.errors
  rw [core_disk hq.core]
  exact h.same

theorem Replayed.committed {files : List String} (h : Replayed setting home s prepared c t)
    (hc : Committed home files t u) : Replayed setting home s prepared c u := by
  apply h.still (h.same.trans hc.same) _ _ hc.errors
  · rw [hc.optimizer]
    exact h.sound
  · have hstore : u.world.store = t.world.store := congrArg Core.store hc.core
    have hmanifest : u.manifest = t.manifest := congrArg Core.manifest hc.core
    have hmissed : u.core.missed = t.core.missed := by rw [hc.core]
    unfold RunState.contents
    rw [hstore, hmanifest, hmissed]

theorem Replayed.failed (h : Replayed setting home s prepared c t) {file : PreparedFile}
    (hfile : .ready file ∈ prepared) (hnever : ∀ vector, ¬ setting.Faithful vector)
    (e : IndexError) (c' : Contents) :
    Replayed setting home s prepared c' (t.addFailure file.path e) where
  same := h.same
  sound := h.sound
  excused failure hfailure := by
    rcases List.mem_append.mp hfailure with hfailure | hfailure
    · exact h.excused failure hfailure
    · rw [List.mem_singleton.mp hfailure]
      exact .inr ⟨⟨file, hfile, rfl⟩, hnever⟩
  contents := .inl ⟨⟨file.path, e.message⟩, List.mem_append_right _ List.mem_cons_self, file, hfile,
    rfl⟩

theorem Replayed.taken (h : Replayed setting home s prepared c t) (pending : List PreparedFile)
    {next : Prepared} (hnext : next ∈ prepared) :
    Replayed setting home s prepared (c.missing (if next.file?.isNone then 1 else 0))
      (takePrepared t pending next).1 := by
  cases next with
  | ready file => exact h.still h.same h.sound rfl rfl
  | unreadable path =>
    refine ⟨h.same, h.sound, h.excused, h.contents.imp
      (fun hgave => hgave.of_errors fun _ hf => hf)
      fun halike => ⟨halike.store, halike.records, ?_⟩⟩
    show (addUnreadable t).core.missed = _
    rw [core_addUnreadable]
    exact congrArg (· + 1) halike.missed
  | failed path e =>
    refine ⟨h.same, h.sound, fun failure hfailure => ?_, h.contents.imp
      (fun hgave => hgave.of_errors fun _ hf => List.mem_append_left _ hf)
      fun halike => ⟨halike.store, halike.records, ?_⟩⟩
    · rcases List.mem_append.mp hfailure with hfailure | hfailure
      · exact h.excused failure hfailure
      · rw [List.mem_singleton.mp hfailure]
        exact .inl ⟨e, hnext⟩
    · show (addFailure t path e).core.missed = _
      rw [core_addFailure]
      exact congrArg (· + 1) halike.missed

theorem writeFile_replayed (hstill : setting.env.Still)
    (hstore : setting.store = MemoryStore.calls) (file : PreparedFile) (vectors : List Embedding)
    (hvectors : withVectors file.fresh vectors =
      withVectors file.fresh (file.fresh.map fun e => vector e.text))
    (h : Replayed setting home s prepared c t) :
    Runs (writeFile setting plan file vectors) t
      (fun _ u => Replayed setting home s prepared (c.write vector plan file) u)
      (fun _ _ => True) := by
  rw [runs_writeFile, hstore]
  apply runs_imp _ _ _ (World.makes_updateFile hstill file.path file.previousIds file.currentIds
    (withVectors file.fresh vectors) file.hasRecord)
  · rintro stats w ⟨rfl, -⟩
    rw [hvectors]
    obtain ⟨store, calls, moments, hcalled⟩ := World.performed_called t.world (file.edits vector)
    refine ⟨?_, h.sound, h.excused, ?_⟩
    · show Same home _ (t.world.performed (file.edits vector)).disk
      rw [hcalled]
      exact h.same
    · rcases h.contents with hgave | halike
      · exact .inl (hgave.of_errors fun _ hf => hf)
      · refine .inr (Contents.Alike.trans (b := t.contents.write vector plan file)
          ⟨?_, fun p => ?_, rfl⟩ (halike.write file))
        · exact World.performed_store t.world (file.edits vector)
        · show (t.manifest.recordIndexed _ _).get? p = _
          unfold Contents.write
          rw [Manifest.get?_recordIndexed, Manifest.get?_recordIndexed]
          rfl
  · exact fun _ _ _ => trivial

theorem writeBatch_replayed (hstill : setting.env.Still)
    (hstore : setting.store = MemoryStore.calls) (hvector : setting.Answers vector)
    (hready : Ready setting.stateDir home s.world.disk) (files : List PreparedFile)
    (hfiles : ∀ file ∈ files, .ready file ∈ prepared) (h : Replayed setting home s prepared c t) :
    Runs (writeBatch setting plan files) t
      (fun _ u => Replayed setting home s prepared (files.foldl (Contents.write vector plan) c) u)
      (fun _ _ => True) := by
  apply writeBatch_rule setting hstill plan files (fun failure _ vectors rest u =>
    ∃ done, files = done ++ rest ∧
      (failure = none → vectors = (textsOf rest).map vector) ∧
      (failure ≠ none → ∀ vector, ¬ setting.Faithful vector) ∧
      Replayed setting home s prepared (done.foldl (Contents.write vector plan) c) u)
  · -- the embedding gives each text its vector, or the provider may fail
    intro failure vectors u hquiet hembedded hnever
    have hbegun : Replayed setting home s prepared c (t.begunBatch (files.map (·.path))) :=
      h.still h.same h.sound rfl rfl
    exact ⟨[], rfl, fun hnone => (hembedded hnone h.sound).2 vector hvector, hnever,
      hbegun.quiet hquiet⟩
  · -- a file fails with the embedding
    rintro failure paths vectors file rest u e rfl _ ⟨done, hsplit, _, hnever, hu⟩
    have hmem : file ∈ files := by
      rw [hsplit]
      exact List.mem_append_right _ List.mem_cons_self
    refine ⟨done ++ [file], ?_, fun hnone => ?_, hnever,
      hu.failed (hfiles file hmem) (hnever (Option.some_ne_none e)) e _⟩
    · rw [hsplit, List.append_assoc]
      rfl
    · cases hnone
  · -- a file takes its own vectors from the front
    rintro failure paths vectors file rest u hcase ⟨done, hsplit, hvectors, hnever, hu⟩
    have htexts : (textsOf (file :: rest)).map vector =
        (file.fresh.map fun e => vector e.text) ++ (textsOf rest).map vector := by
      unfold textsOf
      rw [List.flatMap_cons, List.map_append, List.map_map]
      rfl
    have hmine : withVectors file.fresh vectors =
        withVectors file.fresh (file.fresh.map fun e => vector e.text) := by
      rcases hcase with hnone | hnil
      · rw [hvectors hnone, htexts]
        exact withVectors_append _ _ _
      · rw [hnil]
        rfl
    apply runs_imp _ _ _ (writeFile_replayed hstill hstore file vectors hmine hu)
    · intro _ v hv
      refine ⟨done ++ [file], ?_, fun hnone => ?_, hnever, ?_⟩
      · rw [hsplit, List.append_assoc]
        rfl
      · rw [hvectors hnone, htexts]
        exact List.drop_left' (List.length_map _)
      · rw [List.foldl_append]
        exact hv
    · exact fun _ _ h => h
  · rintro failure paths vectors u v ⟨done, hsplit, _, _, hu⟩ hquiet
    rw [List.append_nil] at hsplit
    have hv := hu.quiet hquiet
    apply runs_imp _ _ _ (commitBatch_committed setting hstill paths v (hready.of_same hv.same))
    · intro _ x hx
      rw [hsplit]
      exact hv.committed hx
    · exact fun _ _ h => h.elim
  · exact fun u v hu hquiet => hu.quiet hquiet

/-- A file that can be read at any time is prepared as at the beginning. -/
theorem prepare_same {d : Disk} (hsame : Same home s.world.disk d) (m : Manifest) (p : String)
    (hlegible : Legible setting home s.world.disk p)
    (hstart : Same home s.world.disk s.world.disk) :
    prepare setting plan.force d (WorkItem.ofPath m p) =
      prepare setting plan.force s.world.disk (WorkItem.ofPath m p) := by
  obtain ⟨content, modified, hall⟩ := hlegible
  have hpath := WorkItem.ofPath_path m p
  rw [prepare_read setting plan.force (hpath.symm ▸ hall d hsame),
    prepare_read setting plan.force (hpath.symm ▸ hall _ hstart)]

/-- The files at some paths are gathered, in whatever batches. -/
theorem drain_replayed (hstill : setting.env.Still) (hstore : setting.store = MemoryStore.calls)
    (hvector : setting.Answers vector) (hready : Ready setting.stateDir home s.world.disk)
    (m : Manifest) (paths : List String)
    (hlegible : ∀ p ∈ paths, Legible setting home s.world.disk p)
    (prepared : List Prepared)
    (hprepared : prepared = paths.map fun p =>
      prepare setting plan.force s.world.disk (WorkItem.ofPath m p))
    (h : Replayed setting home s prepared c t) :
    Runs (drain setting plan paths.length { items := paths.map (WorkItem.ofPath m) }) t
      (fun ending u => ending = .finished →
        Replayed setting home s prepared (c.gather vector plan prepared) u)
      (fun _ _ => True) := by
  -- of the files taken so far some are written, and the others are in the batch
  apply runs_imp _ _ _ (drain_rule setting plan (prepare setting plan.force s.world.disk)
    (fun pending todo u => ∃ taken written, prepared = taken ++ todo ∧
      taken.filterMap Prepared.file? = written ++ pending ∧
      Replayed setting home s prepared
        ((written.foldl (Contents.write vector plan) c).missing
          (taken.countP fun next => next.file?.isNone)) u)
    (fun _ _ => True) (fun _ => True) (paths.map (WorkItem.ofPath m)) ?_ ?_ ?_ ?_ _ _ t ?_ ?_ ?_)
  · rintro ending u ⟨hfinished, _⟩ hending
    obtain ⟨taken, written, hsplit, hfiles, hu⟩ := hfinished hending
    rw [List.append_nil] at hsplit hfiles
    rw [hsplit] at hu ⊢
    unfold Contents.gather
    rw [hfiles]
    exact hu
  · exact fun _ _ h => h
  · rintro pending todo u ⟨_, _, _, _, hu⟩ item hitem
    obtain ⟨p, hp, rfl⟩ := List.mem_map.mp hitem
    exact prepare_same hu.same m p (hlegible p hp) hready.same_refl
  · rintro pending next todo u ⟨taken, written, hsplit, hfiles, hu⟩
    refine ⟨taken ++ [next], written, ?_, ?_, ?_⟩
    · rw [hsplit, List.append_assoc]
      rfl
    · rw [List.filterMap_append, hfiles, List.append_assoc]
      cases next with
      | ready file => rfl
      | unreadable path => exact congrArg (written ++ ·) (List.append_nil pending)
      | failed path e => exact congrArg (written ++ ·) (List.append_nil pending)
    · have hmem : next ∈ prepared := by
        rw [hsplit]
        exact List.mem_append_right _ List.mem_cons_self
      have htaken := hu.taken pending hmem
      rw [Contents.missing_missing] at htaken
      rw [List.countP_append, List.countP_singleton]
      exact htaken
  · rintro pending todo u _ ⟨taken, written, hsplit, hfiles, hu⟩ _
    have hmine : ∀ file ∈ pending, Prepared.ready file ∈ prepared := by
      intro file hfile
      have hmem : file ∈ taken.filterMap Prepared.file? := by
        rw [hfiles]
        exact List.mem_append_right _ hfile
      obtain ⟨next, hnext, heq⟩ := List.mem_filterMap.mp hmem
      cases next with
      | ready file' =>
        cases heq
        rw [hsplit]
        exact List.mem_append_left _ hnext
      | unreadable path => cases heq
      | failed path e => cases heq
    apply runs_imp _ _ _
      (writeBatch_replayed hstill hstore hvector hready pending hmine hu)
    · intro _ v hv
      rw [Contents.foldl_write_missing, ← List.foldl_append] at hv
      exact ⟨taken, written ++ pending, hsplit, by rw [hfiles, List.append_nil], hv⟩
    · exact fun _ _ h => h
  · exact fun _ _ _ _ _ => trivial
  · exact fun item hitem => hitem
  · simp
  · refine ⟨[], [], ?_, rfl, h⟩
    rw [hprepared, List.map_map]
    rfl

variable (plan) in
theorem applyStructural_replayed (hstill : setting.env.Still)
    (hstore : setting.store = MemoryStore.calls)
    (hready : Ready setting.stateDir home s.world.disk) (hsound : s.optimizer.Sound)
    (hexcused : ∀ failure ∈ s.result.errors, Excused setting prepared failure)
    (changes : ChangeSet) {shape : Shape}
    (hshape : Shape.ofChanges plan (setting.hashOf s.world.disk) changes s.manifest = shape) :
    Runs (applyStructural setting plan changes) s (fun reindex t => reindex = shape.reindex ∧
      (∀ p, t.manifest.get? p = shape.manifest.get? p) ∧
        Replayed setting home s prepared (s.contents.shaped shape) t) (fun _ _ => True) := by
  apply runs_imp _ _ _ (applyStructural_committed setting hstill hstore plan changes s hready)
  · rintro reindex t ⟨hreindex, u, v, hu, ⟨touched, hv⟩, hquiet⟩
    rw [hshape] at hreindex hu
    have hshaped : Replayed setting home s prepared (s.contents.shaped shape) u := by
      refine ⟨hu.since.same, ?_, hu.errors ▸ hexcused, .inr ⟨?_, hu.manifest, hu.missed⟩⟩
      · rw [hu.rest.2.2]
        exact hsound
      · show u.world.store = _
        rw [hu.world, World.performed_store]
        rfl
    have hmanifest : t.manifest = u.manifest :=
      (core_manifest hquiet.core).trans (congrArg Core.manifest hv.core)
    exact ⟨hreindex, fun p => by rw [hmanifest, hu.manifest],
      (hshaped.committed hv).quiet hquiet⟩
  · exact fun _ _ _ => trivial

variable (plan) in
theorem runBatches_replayed (hstill : setting.env.Still)
    (hstore : setting.store = MemoryStore.calls) (hvector : setting.Answers vector)
    (hready : Ready setting.stateDir home s.world.disk) (hsound : s.optimizer.Sound)
    (herrors : s.result.errors = []) (changes : ChangeSet)
    (hlegible : ∀ p, changes.Writes p → Legible setting home s.world.disk p) :
    Runs (runBatches setting plan changes) s
      (fun ending t => ending = .finished → Replayed setting home s
        (setting.preparations plan changes s.world.disk s.manifest)
        (setting.replay plan vector changes s.world.disk s.contents) t) (fun _ _ => True) := by
  generalize hprepared : setting.preparations plan changes s.world.disk s.manifest = prepared
  generalize hshape : Shape.ofChanges plan (setting.hashOf s.world.disk) changes s.manifest = shape
  have hexcused : ∀ failure ∈ s.result.errors, Excused setting prepared failure := by
    rw [herrors]
    exact fun _ h => absurd h List.not_mem_nil
  -- the deletions and renames come to the shape, and the files are gathered from there
  apply runBatches_rule setting plan changes (fun reindex t => reindex = shape.reindex ∧
    (∀ p, t.manifest.get? p = shape.manifest.get? p) ∧
      Replayed setting home s prepared (s.contents.shaped shape) t)
  · exact fun _ h => by cases h
  · intro hdeleted hrenamed
    have hstart : shape = .start s.manifest := by
      rw [← hshape]
      exact Shape.ofChanges_plain plan _ changes s.manifest hdeleted hrenamed
    rw [hstart]
    exact ⟨rfl, fun _ => rfl, hready.same_refl, hsound, hexcused, .inr ⟨rfl, fun _ => rfl, rfl⟩⟩
  · exact applyStructural_replayed plan hstill hstore hready hsound hexcused changes hshape
  · rintro reindex t ⟨rfl, hmanifest, ht⟩
    have hpreparations : prepared = (sortedPaths (changes.added ++ changes.modified ++
        shape.reindex)).map fun p =>
          prepare setting plan.force s.world.disk (WorkItem.ofPath t.manifest p) := by
      rw [← hprepared]
      unfold RunSetting.preparations
      rw [hshape]
      exact List.map_congr_left fun p _ => by rw [WorkItem.ofPath_congr (hmanifest p)]
    have hreplay : setting.replay plan vector changes s.world.disk s.contents =
        (s.contents.shaped shape).gather vector plan prepared := by
      rw [← hshape, ← hprepared]
      rfl
    rw [hreplay]
    apply drain_replayed hstill hstore hvector hready t.manifest _ _ _ hpreparations ht
    intro p hp
    rw [← hshape] at hp
    exact hlegible p (RunSetting.writes_of_mem hp)

end RunState

end CodeIndex
