import CodeIndex.Proofs.Run.Transparent
import CodeIndex.Proofs.Run.Undecided

namespace CodeIndex

open StateDir

namespace Contents

variable {vector : String → Embedding} {plan : RunPlan}

theorem store_foldl_write (files : List PreparedFile) (c : Contents) :
    (files.foldl (Contents.write vector plan) c).store =
      c.store.edited (files.flatMap (PreparedFile.edits vector)) := by
  induction files generalizing c with
  | nil => rfl
  | cons file rest ih =>
    rw [List.foldl_cons, ih, List.flatMap_cons, MemoryStore.edited_append]
    rfl

variable (vector plan)

theorem gather_append (c : Contents) (xs ys : List Prepared) :
    c.gather vector plan (xs ++ ys) = (c.gather vector plan xs).gather vector plan ys := by
  unfold gather
  rw [List.filterMap_append, List.foldl_append, foldl_write_missing, missing_missing,
    List.countP_append]

theorem gather_store (c : Contents) (prepared : List Prepared) :
    (c.gather vector plan prepared).store =
      c.store.edited ((prepared.filterMap Prepared.file?).flatMap (PreparedFile.edits vector)) :=
  store_foldl_write _ c

end Contents

namespace RunState

/-- The state directory holds a manifest, or it holds what it held when the run began, and so does
the run. -/
def OnFile (home : Location) (s t : RunState MemoryStore) (m : Manifest) : Prop :=
  content home t.world.disk Manifest.fileName = some m.fileText.toUTF8 ∨
    content home t.world.disk Manifest.fileName = content home s.world.disk Manifest.fileName ∧
      m = s.manifest

variable (home : Location) (vector : String → Embedding) (plan : RunPlan)
  (s : RunState MemoryStore) (c : Contents)

structure Settled (front : List Prepared) (t : RunState MemoryStore) : Prop where
  since : Since home s t
  sound : t.optimizer.Sound
  store : t.world.store = (c.gather vector plan front).store
  records : ∀ p, t.manifest.get? p = (c.gather vector plan front).manifest.get? p
  saved : OnFile home s t t.manifest

/-- A state within a batch: some files are gathered and the records of them are saved, and some
edits more are made. -/
structure Midway (front : List Prepared) (made : List StoreEdit) (t : RunState MemoryStore) :
    Prop where
  since : Since home s t
  store : t.world.store = (c.gather vector plan front).store.edited made
  saved : ∃ m, OnFile home s t m ∧ (s.world.clock.Valid → s.manifest.Storable → m.Storable) ∧
    ∀ p, m.get? p = (c.gather vector plan front).manifest.get? p

def gatherEdits (prepared : List Prepared) : List StoreEdit :=
  (prepared.filterMap Prepared.file?).flatMap (PreparedFile.edits vector)

def BrokenOff (prepared : List Prepared) (t : RunState MemoryStore) : Prop :=
  ∃ front rest made left, prepared = front ++ rest ∧ gatherEdits vector rest = made ++ left ∧
    Midway home vector plan s c front made t

/-- A run is stopped at one of its deletions and renames, with none of them recorded, or at one of
the files that are left. -/
def Abandoned (setting : RunSetting MemoryStore) (changes : ChangeSet) (t : RunState MemoryStore) :
    Prop :=
  let shape := Shape.ofChanges plan (setting.hashOf s.world.disk) changes s.manifest
  (Since home s t ∧ OnFile home s t s.manifest ∧
    ∃ made left, shape.edits = made ++ left ∧ t.world.store = s.world.store.edited made) ∨
  BrokenOff home vector plan s (s.contents.shaped shape)
    (setting.preparations plan changes s.world.disk s.manifest) t

variable {home vector plan s c} {t u : RunState MemoryStore} {front more rest : List Prepared}
  {made : List StoreEdit} {setting : RunSetting MemoryStore} {prepared : List Prepared}

theorem OnFile.later {m : Manifest} (h : OnFile home s t m)
    (hdisk : u.world.disk = t.world.disk) : OnFile home s u m := by
  unfold OnFile
  rw [hdisk]
  exact h

theorem Settled.quiet (h : Settled home vector plan s c front t) (hq : Quiet setting.env t u) :
    Settled home vector plan s c front u where
  since := hq.since setting h.since
  sound := hq.optimizer h.sound
  store := (congrArg Core.store hq.core).trans h.store
  records p := by
    rw [core_manifest hq.core]
    exact h.records p
  saved := by
    rw [core_manifest hq.core]
    exact h.saved.later (core_disk hq.core)

theorem Settled.midway (h : Settled home vector plan s c front t) :
    Midway home vector plan s c front [] t :=
  ⟨h.since, h.store, t.manifest, h.saved, h.since.storable, h.records⟩

theorem Midway.quiet (h : Midway home vector plan s c front made t)
    (hq : Quiet setting.env t u) : Midway home vector plan s c front made u where
  since := hq.since setting h.since
  store := (congrArg Core.store hq.core).trans h.store
  saved := by
    obtain ⟨m, hfile, hstorable, hrecords⟩ := h.saved
    exact ⟨m, hfile.later (core_disk hq.core), hstorable, hrecords⟩

/-- Calls to the store make some edits more, whatever the manifest comes to. -/
theorem Midway.edited (h : Midway home vector plan s c front made t) {w : World MemoryStore}
    (hw : t.world.Called w) {edits : List StoreEdit}
    (hstore : w.store = t.world.store.edited edits) {m : Manifest}
    (hkeyed : t.manifest.Keyed → m.Keyed)
    (hstorable : w.unixTime.Storable → t.manifest.Storable → m.Storable) :
    Midway home vector plan s c front (made ++ edits) { t with world := w, manifest := m } where
  since := h.since.called hw m hkeyed hstorable
  store := by
    show w.store = _
    rw [hstore, h.store, MemoryStore.edited_append]
  saved := by
    obtain ⟨saved, hfile, hrest⟩ := h.saved
    obtain ⟨_, _, _, rfl⟩ := hw
    exact ⟨saved, hfile.later rfl, hrest⟩

structure Partway (home : Location) (vector : String → Embedding) (plan : RunPlan)
    (s : RunState MemoryStore) (c : Contents) (front : List Prepared) (done : List PreparedFile)
    (t : RunState MemoryStore) : Prop
    extends Midway home vector plan s c front (done.flatMap (PreparedFile.edits vector)) t where
  sound : t.optimizer.Sound
  records : ∀ p, t.manifest.get? p =
    (done.foldl (Contents.write vector plan) (c.gather vector plan front)).manifest.get? p

variable {done files : List PreparedFile}

theorem Settled.partway (h : Settled home vector plan s c front t) (paths : List String) :
    Partway home vector plan s c front [] (t.begunBatch paths) where
  toMidway := by
    have hbegun : Midway home vector plan s c front ([] ++ []) (t.begunBatch paths) :=
      h.midway.edited ⟨_, _, _, rfl⟩ rfl id fun _ hs => hs
    exact hbegun
  sound := h.sound
  records := h.records

theorem Partway.quiet (h : Partway home vector plan s c front done t)
    (hq : Quiet setting.env t u) : Partway home vector plan s c front done u where
  toMidway := h.toMidway.quiet hq
  sound := hq.optimizer h.sound
  records p := by
    rw [core_manifest hq.core]
    exact h.records p

theorem Partway.committed {paths : List String} (h : Partway home vector plan s c front done t)
    (hdone : more.filterMap Prepared.file? = done) (hc : Committed home paths t u) :
    Settled home vector plan s c (front ++ more) u where
  since := hc.since h.since
  sound := hc.optimizer ▸ h.sound
  store := by
    have hstore : u.world.store = t.world.store := congrArg Core.store hc.core
    rw [hstore, h.store, Contents.gather_append, Contents.gather_store vector plan (c.gather ..),
      hdone]
  records p := by
    have hmanifest : u.manifest = t.manifest := congrArg Core.manifest hc.core
    rw [hmanifest, h.records, Contents.gather_append]
    unfold Contents.gather
    rw [hdone]
    rfl
  saved := by
    have hmanifest : u.manifest = t.manifest := congrArg Core.manifest hc.core
    rw [hmanifest]
    exact .inl hc.manifestText

section Deeds

variable (setting) (hstill : setting.env.Still) (hstore : setting.store = MemoryStore.calls)

include hstill hstore

/-- A file is written, or the store stops the run at one of its edits. -/
theorem writeFile_partway (file : PreparedFile) (vectors : List Embedding)
    (hvectors : withVectors file.fresh vectors =
      withVectors file.fresh (file.fresh.map fun e => vector e.text))
    (htime : file.modificationTime < Nat.pow 2 64)
    (h : Partway home vector plan s c front done t) :
    Runs (writeFile setting plan file vectors) t
      (fun _ u => Partway home vector plan s c front (done ++ [file]) u)
      (fun e u => (∃ cause, e = .storeWrite cause) ∧ ∃ some left,
        file.edits vector = some ++ left ∧
        Midway home vector plan s c front (done.flatMap (PreparedFile.edits vector) ++ some)
          u) := by
  rw [runs_writeFile, hstore, hvectors]
  apply runs_imp _ _ _ (World.makes_updateFile hstill file.path file.previousIds file.currentIds
    _ file.hasRecord)
  · rintro _ w ⟨rfl, _⟩
    have hedited := h.toMidway.edited (World.performed_called t.world (file.edits vector))
      (World.performed_store t.world (file.edits vector))
      (m := t.manifest.recordIndexed (recordOf plan file)
        (t.world.performed (file.edits vector)).unixTime)
      (Manifest.keyed_recordIndexed _ _ _) fun hnow hs => hs.recordIndexed _ htime _ hnow
    refine ⟨?_, h.sound, fun p => ?_⟩
    · rw [List.flatMap_append, List.flatMap_singleton]
      exact hedited
    · rw [List.foldl_concat]
      unfold Contents.write
      show (t.manifest.recordIndexed _ _).get? p = _
      rw [Manifest.get?_recordIndexed, Manifest.get?_recordIndexed, h.records p]
      rfl
  · rintro e w ⟨made, edit, left, hsplit, _, _, rfl⟩
    have hcalled : t.world.Called ((t.world.performed made).counted edit.call) :=
      (World.performed_called t.world made).trans ⟨_, _, _, rfl⟩
    exact ⟨⟨e, rfl⟩, made, edit :: left, hsplit, h.toMidway.edited hcalled
      (World.performed_store t.world made) id fun _ hs => hs⟩

/-- A batch settles its files, or the store stops the run on its way. -/
theorem writeBatch_settled (hfaithful : setting.Faithful vector)
    (hready : Ready setting.stateDir home s.world.disk)
    (hmore : more.filterMap Prepared.file? = files)
    (htimes : ∀ file ∈ files, file.modificationTime < Nat.pow 2 64)
    (h : Settled home vector plan s c front t) :
    Runs (writeBatch setting plan files) t
      (fun _ u => Settled home vector plan s c (front ++ more) u)
      (fun e u => (∃ cause, e = .storeWrite cause) ∧ ∃ made left,
        files.flatMap (PreparedFile.edits vector) = made ++ left ∧
        Midway home vector plan s c front made u) := by
  -- no file fails, as the provider answers; each takes its own vectors off the front
  apply writeBatch_rule setting hstill plan files (fun failure _ vectors rest u =>
    failure = none ∧ vectors = (textsOf rest).map vector ∧ ∃ done, files = done ++ rest ∧
      Partway home vector plan s c front done u)
  · intro failure vectors u hquiet hembedded hnever
    have hnone : failure = none := Decidable.byContradiction fun hsome => hnever hsome _ hfaithful
    exact ⟨hnone, (hembedded hnone h.sound).2 vector hfaithful.answers, [], rfl,
      (h.partway _).quiet hquiet⟩
  · rintro failure paths vectors file rest u e rfl _ ⟨hnone, _⟩
    cases hnone
  · rintro failure paths vectors file rest u _ ⟨hnone, hvectors, done, hsplit, hu⟩
    have htexts : (textsOf (file :: rest)).map vector =
        (file.fresh.map fun e => vector e.text) ++ (textsOf rest).map vector := by
      unfold textsOf
      rw [List.flatMap_cons, List.map_append, List.map_map]
      rfl
    rw [htexts] at hvectors
    have hmine : withVectors file.fresh vectors =
        withVectors file.fresh (file.fresh.map fun e => vector e.text) := by
      rw [hvectors]
      exact withVectors_append _ _ _
    have hmem : file ∈ files := by
      rw [hsplit]
      exact List.mem_append_right _ List.mem_cons_self
    apply runs_imp _ _ _ (writeFile_partway setting hstill hstore file vectors hmine
      (htimes file hmem) hu)
    · intro _ v hv
      refine ⟨hnone, ?_, done ++ [file], ?_, hv⟩
      · rw [hvectors]
        exact List.drop_left' (List.length_map _)
      · rw [hsplit, List.append_assoc]
        rfl
    · rintro e v ⟨hcause, made, left, hedits, hv⟩
      refine ⟨hcause, _, left ++ rest.flatMap (PreparedFile.edits vector), ?_, hv⟩
      rw [hsplit, List.flatMap_append, List.flatMap_cons, hedits]
      simp only [List.append_assoc]
  · rintro failure paths vectors u v ⟨_, _, done, hsplit, hu⟩ hquiet
    rw [List.append_nil] at hsplit
    have hv := hu.quiet hquiet
    apply runs_imp _ _ _ (commitBatch_committed setting hstill paths v
      (hready.of_same hv.since.same))
    · exact fun _ x hx => hv.committed (hmore.trans hsplit) hx
    · exact fun _ _ hx => hx.elim
  · exact fun u v hu hquiet => hu.quiet hquiet

/-- The files at some paths are settled batch by batch. Wherever the run is stopped, it is broken
off. -/
theorem drain_brokenOff (hfaithful : setting.Faithful vector)
    (hready : Ready setting.stateDir home s.world.disk) (m : Manifest) (paths : List String)
    (hlegible : ∀ p ∈ paths, Legible setting home s.world.disk p)
    (hprepared : prepared = paths.map fun p =>
      prepare setting plan.force s.world.disk (WorkItem.ofPath m p))
    (htimes : ∀ file, .ready file ∈ prepared → file.modificationTime < Nat.pow 2 64)
    (h : Settled home vector plan s c [] t) :
    Runs (drain setting plan paths.length { items := paths.map (WorkItem.ofPath m) }) t
      (fun ending u => Since home s u ∧
        (ending = .cancelled → BrokenOff home vector plan s c prepared u))
      (fun e u => (∃ cause, e = .storeWrite cause) ∧
        BrokenOff home vector plan s c prepared u) := by
  -- the files in front are settled, and those taken since then are in the batch
  apply runs_imp _ _ _ (drain_rule setting plan (prepare setting plan.force s.world.disk)
    (fun pending todo u => ∃ front more, prepared = front ++ more ++ todo ∧
      more.filterMap Prepared.file? = pending ∧ Settled home vector plan s c front u)
    (fun e u => (∃ cause, e = .storeWrite cause) ∧ BrokenOff home vector plan s c prepared u)
    (BrokenOff home vector plan s c prepared) (paths.map (WorkItem.ofPath m)) ?_ ?_ ?_ ?_ _ _ t ?_
    ?_ ?_)
  · rintro ending u ⟨hfinished, hcancelled⟩
    refine ⟨?_, hcancelled⟩
    cases ending with
    | finished =>
      obtain ⟨_, _, _, _, hu⟩ := hfinished rfl
      exact hu.since
    | cancelled =>
      obtain ⟨_, _, _, _, _, _, hu⟩ := hcancelled rfl
      exact hu.since
  · exact fun _ _ h => h
  · rintro pending todo u ⟨_, _, _, _, hu⟩ item hitem
    obtain ⟨p, hp, rfl⟩ := List.mem_map.mp hitem
    exact prepare_same hu.since.same m p (hlegible p hp) hready.same_refl
  · rintro pending next todo u ⟨front, more, hsplit, hfiles, hu⟩
    have hlater := since_takePrepared hu.since pending next
    refine ⟨front, more ++ [next], ?_, ?_, ?_⟩
    · rw [hsplit]
      simp only [List.append_assoc, List.singleton_append]
    · rw [List.filterMap_append, hfiles]
      cases next with
      | ready file => rfl
      | unreadable path => exact List.append_nil pending
      | failed path e => exact List.append_nil pending
    · cases next <;> exact ⟨hlater, hu.sound, hu.store, hu.records, hu.saved⟩
  · rintro pending todo u _ ⟨front, more, hsplit, hfiles, hu⟩ _
    have hmine : ∀ file ∈ pending, file.modificationTime < Nat.pow 2 64 := by
      intro file hfile
      rw [← hfiles] at hfile
      obtain ⟨next, hnext, heq⟩ := List.mem_filterMap.mp hfile
      have hmem : next ∈ prepared := by
        rw [hsplit]
        exact List.mem_append_left _ (List.mem_append_right _ hnext)
      cases next with
      | ready file' =>
        cases heq
        exact htimes _ hmem
      | unreadable path => cases heq
      | failed path e => cases heq
    apply runs_imp _ _ _ (writeBatch_settled setting hstill hstore hfaithful hready hfiles hmine hu)
    · intro _ v hv
      exact ⟨front ++ more, [], by rw [List.append_nil, hsplit], rfl, hv⟩
    · rintro e v ⟨hcause, made, left, hedits, hv⟩
      refine ⟨hcause, front, more ++ todo, made, left ++ gatherEdits vector todo, ?_, ?_, hv⟩
      · rw [hsplit, List.append_assoc]
      · unfold gatherEdits
        rw [List.filterMap_append, hfiles, List.flatMap_append, hedits, List.append_assoc]
  · rintro pending todo u ⟨front, more, hsplit, _, hu⟩ _
    exact ⟨front, more ++ todo, [], _, by rw [hsplit, List.append_assoc], rfl, hu.midway⟩
  · exact fun item hitem => hitem
  · simp
  · refine ⟨[], [], ?_, rfl, h⟩
    rw [hprepared, List.map_map]
    rfl

variable (plan) in
/-- The batches of a run that is stopped leave a part of its changes done. -/
theorem runBatches_abandons (hfaithful : setting.Faithful vector)
    (hready : Ready setting.stateDir home s.world.disk) (hsound : s.optimizer.Sound)
    (changes : ChangeSet) (hlegible : ∀ p, changes.Writes p → Legible setting home s.world.disk p) :
    Runs (runBatches setting plan changes) s
      (fun ending t => Since home s t ∧
        (ending = .cancelled → Abandoned home vector plan s setting changes t))
      (fun e t => (∃ cause, e = .storeWrite cause) ∧
        Abandoned home vector plan s setting changes t) := by
  generalize hshape : Shape.ofChanges plan (setting.hashOf s.world.disk) changes s.manifest = shape
  apply runBatches_rule setting plan changes (fun reindex t => reindex = shape.reindex ∧
    Settled home vector plan s (s.contents.shaped shape) [] t)
  · intro _
    exact ⟨.refl hready.leaf, fun _ => .inl ⟨.refl hready.leaf, .inr ⟨rfl, rfl⟩, [], _, rfl, rfl⟩⟩
  · intro hdeleted hrenamed
    have hstart : shape = .start s.manifest := by
      rw [← hshape]
      exact Shape.ofChanges_plain plan _ changes s.manifest hdeleted hrenamed
    rw [hstart]
    exact ⟨rfl, .refl hready.leaf, hsound, rfl, fun _ => rfl, .inr ⟨rfl, rfl⟩⟩
  · apply runs_imp _ _ _ (applyStructural_committed setting hstill hstore plan changes s hready)
    · rintro reindex t ⟨hreindex, u, v, hu, ⟨touched, hv⟩, hquiet⟩
      rw [hshape] at hreindex hu
      have hmanifest : v.manifest = u.manifest := congrArg Core.manifest hv.core
      have hworld : v.world.store = u.world.store := congrArg Core.store hv.core
      have hsettled : Settled home vector plan s (s.contents.shaped shape) [] v := by
        refine ⟨hv.since hu.since, ?_, ?_, fun p => ?_, ?_⟩
        · rw [hv.optimizer, hu.rest.2.2]
          exact hsound
        · rw [hworld, hu.world, World.performed_store]
          rfl
        · rw [hmanifest, hu.manifest]
          rfl
        · rw [hmanifest]
          exact .inl hv.manifestText
      exact ⟨hreindex, hsettled.quiet hquiet⟩
    · rintro e t ⟨cause, rfl, ⟨made, edit, left, hsplit, _, _, hworld⟩, hsince, _⟩
      -- the calls to the store leave the disk as it is
      obtain ⟨store, calls, moments, hcalled⟩ := World.performed_called
        (s.begunBatch (structuralPaths changes)).world made
      have hdisk : t.world.disk = s.world.disk := by
        rw [hworld, hcalled]
        rfl
      refine ⟨⟨cause, rfl⟩, .inl ⟨hsince, .inr ⟨by rw [hdisk], rfl⟩, made, edit :: left, hsplit,
        ?_⟩⟩
      rw [hworld]
      exact World.performed_store _ made
  · rintro reindex t ⟨rfl, ht⟩
    have hprepared : setting.preparations plan changes s.world.disk s.manifest =
        (sortedPaths (changes.added ++ changes.modified ++ shape.reindex)).map fun p =>
          prepare setting plan.force s.world.disk (WorkItem.ofPath t.manifest p) := by
      unfold RunSetting.preparations
      rw [hshape]
      exact List.map_congr_left fun p _ => by rw [WorkItem.ofPath_congr (ht.records p)]; rfl
    apply runs_imp _ _ _ (drain_brokenOff setting hstill hstore hfaithful hready t.manifest _ ?_
      hprepared ?_ ht)
    · rintro ending u ⟨hsince, hcancelled⟩
      refine ⟨hsince, fun hending => .inr ?_⟩
      rw [hshape]
      exact hcancelled hending
    · rintro e u ⟨hcause, hu⟩
      refine ⟨hcause, .inr ?_⟩
      rw [hshape]
      exact hu
    · intro p hp
      rw [← hshape] at hp
      exact hlegible p (RunSetting.writes_of_mem hp)
    · intro file hfile
      obtain ⟨_, _, _, hfile⟩ := RunSetting.mem_preparations hfile
      exact prepare_time setting hfile.symm

end Deeds

end RunState

namespace RunSetting

open RunState

variable (setting : RunSetting MemoryStore)

/-- What is left of some changes in a tree by a run that is stopped: a store, and the records that
are saved. Either some edits of the deletions and renames are made and no records are changed, or
these are done and some files are gathered, and some edits for the others are made. -/
def Leaves (plan : RunPlan) (vector : String → Embedding) (changes : ChangeSet) (d : Disk)
    (c : Contents) (store : MemoryStore) (m : Manifest) : Prop :=
  let shape := Shape.ofChanges plan (setting.hashOf d) changes c.manifest
  (∃ made left, shape.edits = made ++ left ∧ store = c.store.edited made ∧ m = c.manifest) ∨
  ∃ front rest made left, setting.preparations plan changes d c.manifest = front ++ rest ∧
    gatherEdits vector rest = made ++ left ∧
    store = ((c.shaped shape).gather vector plan front).store.edited made ∧
    ∀ p, m.get? p = ((c.shaped shape).gather vector plan front).manifest.get? p

end RunSetting

namespace RunState

variable {setting : RunSetting MemoryStore} {home : Location}

theorem OnFile.loaded {s t : RunState MemoryStore} {m : Manifest} (h : OnFile home s t m)
    {w' : World MemoryStore} (hready : Ready setting.stateDir home s.world.disk)
    (hsame : Same home s.world.disk w'.disk)
    (hcontent : content home w'.disk Manifest.fileName =
      content home t.world.disk Manifest.fileName) (hstorable : m.Storable)
    (hload : s.world.loadManifest setting.stateDir = .ok s.manifest) :
    w'.loadManifest setting.stateDir = .ok m := by
  have hready' := hready.of_same hsame
  rcases h with hsaved | ⟨hbefore, rfl⟩
  · exact World.loadManifest_saved w' hready' m hstorable (hcontent.trans hsaved)
  · rw [World.loadManifest_eq w' hready', hcontent, hbefore, ← World.loadManifest_eq s.world hready]
    exact hload

/-- What batches have left that were stopped is left at the end of the run, and the records are
loaded from there if they were loaded to begin with. -/
theorem Abandoned.leaves {vector : String → Embedding} {plan : RunPlan} {changes : ChangeSet}
    {s t : RunState MemoryStore} (h : Abandoned home vector plan s setting changes t)
    {w' : World MemoryStore} (hready : Ready setting.stateDir home s.world.disk)
    (hsame : Same home t.world.disk w'.disk)
    (hcontent : content home w'.disk Manifest.fileName =
      content home t.world.disk Manifest.fileName) (hstore : w'.store = t.world.store) :
    ∃ m, setting.Leaves plan vector changes s.world.disk s.contents w'.store m ∧
      (s.world.clock.Valid → s.manifest.Storable →
        s.world.loadManifest setting.stateDir = .ok s.manifest →
        w'.loadManifest setting.stateDir = .ok m) := by
  rcases h with ⟨hsince, hfile, made, left, hsplit, hmade⟩ |
    ⟨front, rest, made, left, hsplit, hedits, hsince, hmade, m, hfile, hkeeps, hrecords⟩
  · exact ⟨_, .inl ⟨made, left, hsplit, hstore.trans hmade, rfl⟩, fun _ hstorable hload =>
      hfile.loaded hready (hsince.same.trans hsame) hcontent hstorable hload⟩
  · exact ⟨m, .inr ⟨front, rest, made, left, hsplit, hedits, hstore.trans hmade, hrecords⟩,
      fun hclock hstorable hload => hfile.loaded hready (hsince.same.trans hsame) hcontent
        (hkeeps hclock hstorable) hload⟩

end RunState

namespace RunSetting

open RunState

variable {setting : RunSetting MemoryStore} {filter : FileFilter} {home : Location}
  {vector : String → Embedding}

/-- A run that is aborted is stopped among its batches, and what it saves then is its checkpoint. -/
theorem execute_leaves (hstill : setting.env.Still) (hstore : setting.store = MemoryStore.calls)
    (hfaithful : setting.Faithful vector) (c : RunContext) (detection : Detection) (force : Bool)
    {w w₁ w' : World MemoryStore} {report : RunReport MemoryStore} {res : IndexResult}
    (hready : Ready setting.stateDir home w₁.disk)
    (hsave : (World.save setting.env setting.stateDir Checkpoint.fileName
      (beginning c detection w.clock).fileText).run w = (.ok (), w₁))
    (hlegible : ∀ p, detection.changes.Writes p → Legible setting home w₁.disk p)
    (hrun : (setting.execute filter c detection force).run w = (.ok report, w'))
    (houtcome : report.outcome = .ok res) (haborted : res.status = .aborted) :
    ∃ m, setting.Leaves (setting.planned filter c detection force w.clock w₁.disk) vector
        detection.changes w₁.disk (setting.initial c detection w w₁).contents w'.store m ∧
      (w₁.clock.Valid → c.manifest.Storable →
        w₁.loadManifest setting.stateDir = .ok c.manifest →
        w'.loadManifest setting.stateDir = .ok m) := by
  have hbegin := setting.execute_run filter c detection force hsave
  generalize setting.planned filter c detection force w.clock w₁.disk = plan at *
  have hbatches := runs_and _ _ _ (runBatches_abandons (s := setting.initial c detection w w₁) plan
    setting hstill hstore hfaithful hready (BatchOptimizer.start_sound _ _) detection.changes
    hlegible) (runBatches_undecided plan detection.changes _)
  rcases hflow : (runBatches setting plan detection.changes).run
    (setting.initial c detection w w₁) with ⟨flow, t⟩
  rcases hend : (setting.conclude plan flow).run t with ⟨outcome, u⟩
  dsimp only at hbegin
  rw [hrun, hflow, hend] at hbegin
  cases hbegin
  cases flow with
  | error e =>
    obtain ⟨⟨⟨cause, rfl⟩, habandoned⟩, _⟩ := runs_error _ _ _ hbatches hflow
    have hsame : Same home w₁.disk t.world.disk := by
      rcases habandoned with ⟨hsince, _⟩ | ⟨_, _, _, _, _, _, hmidway⟩
      · exact hsince.same
      · exact hmidway.since.same
    cases outcome with
    | error e' => cases houtcome
    | ok res' =>
      obtain ⟨⟨w'', hsaved, rfl⟩, _⟩ := runs_ok _ _ _
        (conclude_failed hstill plan cause t (hready.of_same hsame)) hend
      refine habandoned.leaves hready hsaved.same (hsaved.others _ (by decide) (by decide)) ?_
      obtain ⟨_, _, rfl⟩ := hsaved.rest
      rfl
  | ok ending =>
    obtain ⟨⟨hsince, hcancelled⟩, hundecided⟩ := runs_ok _ _ _ hbatches hflow
    cases ending with
    | cancelled =>
      cases hend
      exact (hcancelled rfl).leaves hready (Disk.SameBut.refl hsince.same.after) rfl rfl
    | finished =>
      -- a run that went through all its files is not aborted
      have hstatus : t.result.status = .completed := hundecided.status
      cases outcome with
      | error e => cases houtcome
      | ok res' =>
        cases houtcome
        obtain ⟨_, rfl⟩ := runs_ok _ _ _
          (complete_completed setting hstill plan t (hready.of_same hsince.same)) hend
        exact absurd haborted (IndexResult.finish_ended (by rw [hstatus]; decide))

end RunSetting

end CodeIndex
