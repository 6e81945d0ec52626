import CodeIndex.Proofs.Run.Loading
import CodeIndex.Proofs.Run.Restructure

namespace CodeIndex

open StateDir

/-- The store holds for a path just the ids of its record. -/
def MemoryStore.Agrees (s : MemoryStore) (m : Manifest) (path : String) : Prop :=
  ∀ id, id ∈ s.idsForPath path ↔ ∃ r, m.get? path = some r ∧ id ∈ r.entityIds

def MemoryStore.Synced (s : MemoryStore) (m : Manifest) : Prop := ∀ path, s.Agrees m path

def openPaths {σ : Type} : List (Moment σ) → List String
  | [] => []
  | m :: earlier =>
    match m.deed with
    | .batchBegun paths => paths
    | .batchSaved => []
    | .storeCall _ | .diskWrite => openPaths earlier

/-- The world as a run that stopped at a moment would leave it. -/
def Moment.world {σ : Type} (m : Moment σ) : World σ where
  disk := m.disk
  store := m.store
  clock := default

def Moment.Orderly (directory : String) (m : Moment MemoryStore) (paths : List String) : Prop :=
  ∃ saved, m.world.loadManifest directory = .ok saved ∧ ∀ p ∉ paths, m.store.Agrees saved p

/-- Every moment of some is orderly outside the batch that is open then. -/
def AllOrderly (directory : String) (moments : List (Moment MemoryStore)) : Prop :=
  ∀ m earlier, m :: earlier <:+ moments → m.Orderly directory (openPaths (m :: earlier))

/-- A world where the manifest is saved and the store agrees with it outside an open batch, as at
every moment since `base`. -/
structure World.Accounted (directory : String) (base : List (Moment MemoryStore))
    (paths : List String) (saved : Manifest) (w : World MemoryStore) : Prop where
  loaded : w.loadManifest directory = .ok saved
  outside : ∀ p ∉ paths, w.store.Agrees saved p
  moments : ∃ new, w.moments = new ++ base ∧ openPaths new = paths ∧ AllOrderly directory new

namespace World.Accounted

variable {directory : String} {base : List (Moment MemoryStore)} {paths : List String}
  {saved : Manifest} {w w' : World MemoryStore} {home : Location}

theorem allOrderly_cons (m : Moment MemoryStore) (moments : List (Moment MemoryStore))
    (hm : m.Orderly directory (openPaths (m :: moments))) (h : AllOrderly directory moments) :
    AllOrderly directory (m :: moments) := by
  intro m' earlier hsuffix
  rcases List.suffix_cons_iff.mp hsuffix with heq | hsuffix
  · cases heq
    exact hm
  · exact h m' earlier hsuffix

/-- A moment is noted when the paths of its batch take in all that may disagree. -/
theorem mark (h : Accounted directory base paths saved w) (deed : Deed) (paths' : List String)
    (hdeed : ∀ disk store new, openPaths new = paths →
      openPaths ((⟨deed, disk, store⟩ : Moment MemoryStore) :: new) = paths')
    (hout : ∀ p ∉ paths', w.store.Agrees saved p) :
    Accounted directory base paths' saved (w.mark deed) := by
  obtain ⟨new, hnew, hopen, hall⟩ := h.moments
  have hload : (w.mark deed).loadManifest directory = .ok saved :=
    (loadManifest_congr w _ rfl).trans h.loaded
  refine ⟨hload, hout, ⟨deed, w.disk, w.store⟩ :: new, ?_, hdeed _ _ _ hopen, ?_⟩
  · rw [List.cons_append, ← hnew]
    rfl
  · apply allOrderly_cons _ _ _ hall
    rw [hdeed _ _ _ hopen]
    exact ⟨saved, (loadManifest_congr w _ rfl).trans h.loaded, hout⟩

/-- The store and the disk may change as long as what is loaded and held stays the same. -/
theorem congr (h : Accounted directory base paths saved w) (hdisk : w'.disk = w.disk)
    (hmoments : w'.moments = w.moments)
    (hstore : ∀ p ∉ paths, ∀ id, w'.store.Holds p id ↔ w.store.Holds p id) :
    Accounted directory base paths saved w' := by
  refine ⟨(loadManifest_congr w w' hdisk).trans h.loaded, fun p hp id => ?_, ?_⟩
  · rw [MemoryStore.mem_idsForPath, hstore p hp, ← MemoryStore.mem_idsForPath]
    exact h.outside p hp id
  · rw [hmoments]
    exact h.moments

end World.Accounted

def StoreEdit.Local (paths : List String) (s : MemoryStore) : List StoreEdit → Prop
  | [] => True
  | edit :: rest =>
    (∀ p ∉ paths, ∀ id, (edit.apply s).Holds p id ↔ s.Holds p id) ∧
      StoreEdit.Local paths (edit.apply s) rest

theorem StoreEdit.local_front {paths : List String} (done rest : List StoreEdit) (s : MemoryStore)
    (h : StoreEdit.Local paths s (done ++ rest)) : StoreEdit.Local paths s done := by
  induction done generalizing s with
  | nil => exact trivial
  | cons first more ih => exact ⟨h.1, ih _ h.2⟩

theorem StoreEdit.local_mono {paths paths' : List String} (h : ∀ p ∈ paths, p ∈ paths')
    (edits : List StoreEdit) (s : MemoryStore) (hlocal : StoreEdit.Local paths s edits) :
    StoreEdit.Local paths' s edits := by
  induction edits generalizing s with
  | nil => exact trivial
  | cons edit rest ih => exact ⟨fun p hp => hlocal.1 p fun hin => hp (h p hin), ih _ hlocal.2⟩

theorem StoreEdit.local_drop {paths : List String} (s : MemoryStore) (ids : List String)
    (h : ∀ p ∉ paths, ∀ id, ((StoreEdit.drop ids).apply s).Holds p id ↔ s.Holds p id) :
    StoreEdit.Local paths s (if ids.isEmpty then [] else [.drop ids]) := by
  split
  · exact trivial
  · exact ⟨h, trivial⟩

theorem StoreEdit.local_holds {paths : List String} (edits : List StoreEdit) (s : MemoryStore)
    (hlocal : StoreEdit.Local paths s edits) (p : String) (hp : p ∉ paths) (id : String) :
    (s.edited edits).Holds p id ↔ s.Holds p id := by
  induction edits generalizing s with
  | nil => exact Iff.rfl
  | cons edit rest ih => exact (ih _ hlocal.2).trans (hlocal.1 p hp id)

namespace World.Accounted

variable {directory : String} {base : List (Moment MemoryStore)} {paths : List String}
  {saved : Manifest} {w w' : World MemoryStore} {home : Location}

theorem performed (h : Accounted directory base paths saved w) (edits : List StoreEdit)
    (hlocal : StoreEdit.Local paths w.store edits) :
    Accounted directory base paths saved (w.performed edits) := by
  induction edits generalizing w with
  | nil => exact h
  | cons edit rest ih =>
    obtain ⟨hedit, hrest⟩ := hlocal
    have hstore : Accounted directory base paths saved
        { w.counted edit.call with store := edit.apply w.store } := h.congr rfl rfl hedit
    have hmarked := hstore.mark (.storeCall edit.call) paths (fun _ _ _ hopen => hopen)
      hstore.outside
    exact ih hmarked hrest

/-- A run that is stopped at an edit has made those before it. -/
theorem stopped {env : Surroundings} {cause : StoreError} {edits : List StoreEdit}
    (h : Accounted directory base paths saved w)
    (hlocal : StoreEdit.Local paths w.store edits) (hstop : w.Stopped env edits cause w') :
    Accounted directory base paths saved w' := by
  obtain ⟨done, edit, rest, rfl, _, _, rfl⟩ := hstop
  exact (h.performed done (StoreEdit.local_front _ _ _ hlocal)).congr rfl rfl fun _ _ _ => Iff.rfl

/-- Moments at which files of the state directory are written, each with a manifest that the store
agrees with. -/
theorem writes (h : Accounted directory base paths saved w) (new : List (Moment MemoryStore))
    (hnew : ∀ m ∈ new, m.deed = .diskWrite ∧ m.Orderly directory paths) :
    ∃ all, new ++ w.moments = all ++ base ∧ openPaths all = paths ∧ AllOrderly directory all := by
  induction new with
  | nil => exact h.moments
  | cons m rest ih =>
    obtain ⟨all, hall, hopen, horderly⟩ := ih fun m' hm' => hnew m' (List.mem_cons_of_mem _ hm')
    obtain ⟨hdeed, hm⟩ := hnew m List.mem_cons_self
    have hstill : openPaths (m :: all) = paths := by
      rw [openPaths, hdeed]
      exact hopen
    refine ⟨m :: all, by rw [List.cons_append, hall, List.cons_append], hstill, ?_⟩
    exact allOrderly_cons m all (hstill.symm ▸ hm) horderly

/-- The manifest is loaded as before where its file is as before. -/
theorem loadManifest_kept (h : Accounted directory base paths saved w)
    (hready : Ready directory home w.disk) (v : World MemoryStore)
    (hsame : Same home w.disk v.disk) (hcontent : content home v.disk Manifest.fileName =
      content home w.disk Manifest.fileName) : v.loadManifest directory = .ok saved := by
  rw [World.loadManifest_eq v (hready.of_same hsame), hcontent, ← World.loadManifest_eq w hready]
  exact h.loaded

theorem savedCheckpoint (h : Accounted directory base paths saved w)
    (hready : Ready directory home w.disk) {text : String}
    (hw : Saved home Checkpoint.fileName text w w') :
    Accounted directory base paths saved w' := by
  obtain ⟨disk, moments, heq⟩ := hw.rest
  refine ⟨h.loadManifest_kept hready w' hw.same (hw.others _ (by decide) (by decide)), ?_, ?_⟩
  · rw [heq]
    exact h.outside
  · obtain ⟨new, hnew, hall⟩ := hw.moments
    rw [hnew]
    refine h.writes new fun m hm => ?_
    obtain ⟨hdeed, hstore, hsame, hcontent⟩ := hall m hm
    rcases hcontent Manifest.fileName (by decide) with hold | ⟨hname, _⟩
    · exact ⟨hdeed, saved, h.loadManifest_kept hready m.world hsame hold,
        fun p hp => hstore ▸ h.outside p hp⟩
    · exact absurd hname (by decide)

theorem savedManifest (h : Accounted directory base paths saved w)
    (hready : Ready directory home w.disk) (m : Manifest) (hm : m.Storable)
    (hagrees : ∀ p ∉ paths, w.store.Agrees m p)
    (hw : Saved home Manifest.fileName m.fileText w w') :
    Accounted directory base paths m w' := by
  obtain ⟨disk, moments, heq⟩ := hw.rest
  refine ⟨World.loadManifest_saved w' (hready.of_same hw.same) m hm hw.content, ?_, ?_⟩
  · rw [heq]
    exact hagrees
  · obtain ⟨new, hnew, hall⟩ := hw.moments
    rw [hnew]
    refine h.writes new fun moment hmoment => ?_
    obtain ⟨hdeed, hstore, hsame, hcontent⟩ := hall moment hmoment
    -- at each moment the manifest on the disk is the old one or the new one
    rcases hcontent Manifest.fileName (by decide) with hold | ⟨_, htext⟩
    · exact ⟨hdeed, saved, h.loadManifest_kept hready moment.world hsame hold,
        fun p hp => hstore ▸ h.outside p hp⟩
    · exact ⟨hdeed, m, World.loadManifest_saved moment.world (hready.of_same hsame) m hm htext,
        fun p hp => hstore ▸ hagrees p hp⟩

end World.Accounted

def StoreEdit.Over (paths : List String) : StoreEdit → Prop
  | .clear path => path ∈ paths
  | .move source target => source ∈ paths ∧ target ∈ paths
  | .write _ | .drop _ => False

theorem StoreEdit.local_of_over {paths : List String} (edits : List StoreEdit) (s : MemoryStore)
    (h : ∀ edit ∈ edits, edit.Over paths) : StoreEdit.Local paths s edits := by
  induction edits generalizing s with
  | nil => exact trivial
  | cons edit rest ih =>
    refine ⟨fun p hp id => ?_, ih _ fun e he => h e (List.mem_cons_of_mem _ he)⟩
    have hover := h edit List.mem_cons_self
    cases edit with
    | clear path =>
      rw [MemoryStore.holds_clear]
      exact ⟨fun h => h.1, fun h => ⟨h, fun heq => hp (heq ▸ hover)⟩⟩
    | move source target =>
      rw [MemoryStore.holds_move]
      constructor
      · rintro (⟨rfl, _⟩ | ⟨_, h⟩)
        · exact absurd hover.2 hp
        · exact h
      · exact fun h => .inr ⟨fun heq => hp (heq ▸ hover.1), h⟩
    | write entities => exact hover.elim
    | drop ids => exact hover.elim

namespace Shape

variable {plan : RunPlan} {hashOf : String → Option ContentHash} {paths : List String}
  {s s' s'' : Shape}

structure Within (paths : List String) (s s' : Shape) : Prop where
  edits : ∃ more, s'.edits = s.edits ++ more ∧ ∀ edit ∈ more, edit.Over paths
  records : ∀ p ∉ paths, s'.manifest.get? p = s.manifest.get? p

theorem Within.refl (s : Shape) : Within paths s s :=
  ⟨⟨[], (List.append_nil _).symm, fun _ h => absurd h List.not_mem_nil⟩, fun _ _ => rfl⟩

theorem Within.trans (h : Within paths s s') (h' : Within paths s' s'') : Within paths s s'' := by
  obtain ⟨more, hmore, hover⟩ := h.edits
  obtain ⟨more', hmore', hover'⟩ := h'.edits
  refine ⟨⟨more ++ more', by rw [hmore', hmore, List.append_assoc], fun edit hedit => ?_⟩,
    fun p hp => (h'.records p hp).trans (h.records p hp)⟩
  rcases List.mem_append.mp hedit with hedit | hedit
  · exact hover edit hedit
  · exact hover' edit hedit

theorem forget_within (s : Shape) {path : String} (h : path ∈ paths) :
    Within paths s (s.forget path) := by
  refine ⟨⟨[.clear path], rfl, fun edit hedit => ?_⟩, fun p hp => ?_⟩
  · rw [List.mem_singleton.mp hedit]
    exact h
  · have hne : path ≠ p := fun heq => hp (heq ▸ h)
    show (s.manifest.removeFile path .zero).get? p = _
    rw [Manifest.get?_removeFile, if_neg hne]

theorem moveEdits_over {source target : String} (hsource : source ∈ paths)
    (htarget : target ∈ paths) (had : Bool) :
    ∀ edit ∈ World.moveEdits source target had, edit.Over paths := by
  intro edit hedit
  rcases List.mem_append.mp hedit with hedit | hedit
  · split at hedit
    · rw [List.mem_singleton.mp hedit]
      exact htarget
    · exact absurd hedit List.not_mem_nil
  · rw [List.mem_singleton.mp hedit]
    exact ⟨hsource, htarget⟩

theorem rename_within (s : Shape) (ends : String × String) (hsource : ends.1 ∈ paths)
    (htarget : ends.2 ∈ paths) : Within paths s (s.rename plan hashOf ends) := by
  unfold rename
  split
  · exact ⟨(Within.refl s).edits, (Within.refl s).records⟩
  · exact ⟨(Within.refl s).edits, (Within.refl s).records⟩
  · rename_i r hash hr _
    split
    · refine ⟨⟨_, rfl, moveEdits_over hsource htarget _⟩, fun p hp => ?_⟩
      have hne : ends.1 ≠ p ∧ ends.2 ≠ p :=
        ⟨fun heq => hp (heq ▸ hsource), fun heq => hp (heq ▸ htarget)⟩
      exact RunState.get?_relocated_other s.manifest plan ends.1 ends.2 .zero (by rw [hr]; rfl) p
        hne.1 hne.2
    · have h := forget_within s hsource
      exact ⟨h.edits, h.records⟩

theorem renames_within (renames : List (String × String)) (s : Shape)
    (h : ∀ e ∈ renames, e.1 ∈ paths ∧ e.2 ∈ paths) :
    Within paths s (renames.foldl (rename plan hashOf) s) := by
  induction renames generalizing s with
  | nil => exact .refl s
  | cons ends rest ih =>
    obtain ⟨hsource, htarget⟩ := h ends List.mem_cons_self
    exact (rename_within s ends hsource htarget).trans
      (ih _ fun e he => h e (List.mem_cons_of_mem _ he))

theorem deletions_within (deleted : List String) (s : Shape) (h : ∀ p ∈ deleted, p ∈ paths) :
    Within paths s (deleted.foldl forget s) := by
  induction deleted generalizing s with
  | nil => exact .refl s
  | cons path rest ih =>
    exact (forget_within s (h path List.mem_cons_self)).trans
      (ih _ fun p hp => h p (List.mem_cons_of_mem _ hp))

theorem mem_structuralPaths (changes : ChangeSet) (p : String) :
    p ∈ RunState.structuralPaths changes ↔
      p ∈ changes.deleted ∨ ∃ e ∈ changes.renamed, p = e.1 ∨ p = e.2 := by
  simp [RunState.structuralPaths]

theorem ofChanges_within (changes : ChangeSet) (m : Manifest) :
    Within (RunState.structuralPaths changes) (start m) (ofChanges plan hashOf changes m) := by
  have hmem := mem_structuralPaths changes
  apply (deletions_within changes.deleted (start m) fun p hp => (hmem p).mpr (.inl hp)).trans
  apply renames_within
  exact fun e he => ⟨(hmem e.1).mpr (.inr ⟨e, he, .inl rfl⟩),
    (hmem e.2).mpr (.inr ⟨e, he, .inr rfl⟩)⟩

theorem ofChanges_over (changes : ChangeSet) (m : Manifest) :
    ∀ edit ∈ (ofChanges plan hashOf changes m).edits,
      edit.Over (RunState.structuralPaths changes) := by
  have h : Within (RunState.structuralPaths changes) (start m) (ofChanges plan hashOf changes m) :=
    ofChanges_within changes m
  obtain ⟨more, hmore, hover⟩ := h.edits
  rw [hmore]
  exact hover

end Shape

namespace MemoryStore

variable {s : MemoryStore} {m : Manifest}

theorem agrees_iff (s : MemoryStore) (m : Manifest) (p : String) :
    s.Agrees m p ↔ ∀ id, s.Holds p id ↔ ∃ r, m.get? p = some r ∧ id ∈ r.entityIds := by
  unfold Agrees
  simp only [mem_idsForPath]

theorem Synced.congr (h : s.Synced m) {m' : Manifest} (hm : ∀ p, m'.get? p = m.get? p) :
    s.Synced m' := by
  intro p id
  rw [hm]
  exact h p id

theorem Synced.joined (h : s.Synced m) (e : EmbeddedEntity) (r : FileRecord) (now : Duration)
    (hpath : r.path = e.entity.filePath) (hids : r.entityIds = [e.entity.id])
    (hnew : m.get? r.path = none) (hfree : s.get? e.entity.id = none) :
    (s.upsert [e]).Synced (m.recordIndexed r now) := by
  have hget (id : String) : (s.upsert [e]).get? id =
      if e.entity.id = id then some ⟨e.entity, e.vector, .derived⟩ else s.get? id := by
    show (s.upsertOne e).get? id = _
    rw [get?_upsertOne]
    by_cases hid : e.entity.id = id
    · rw [if_pos hid, ← hid, hfree]
      rfl
    · rw [if_neg hid]
      split <;> rfl
  intro p
  rw [agrees_iff]
  intro id
  have hp := (agrees_iff s m p).mp (h p) id
  unfold Holds at hp ⊢
  rw [hget, Manifest.get?_recordIndexed]
  by_cases hid : e.entity.id = id
  · -- nothing had the id before
    have hnone : ¬ ∃ r, m.get? p = some r ∧ id ∈ r.entityIds := by
      rw [← hp, ← hid, hfree]
      rintro ⟨_, hx, _⟩
      cases hx
    rw [if_pos hid]
    constructor
    · rintro ⟨x, hx, hfile⟩
      cases hx
      have hat : e.entity.filePath = p := ((isDerivedFor_iff _ p).mp hfile).2
      exact ⟨r, if_pos (hpath.trans hat), by rw [hids, hid]; exact List.mem_singleton_self _⟩
    · rintro ⟨r', hr', hmem⟩
      split at hr'
      · rename_i hat
        exact ⟨_, rfl, (isDerivedFor_iff _ p).mpr ⟨rfl, hpath.symm.trans hat⟩⟩
      · exact absurd ⟨r', hr', hmem⟩ hnone
  · rw [if_neg hid, hp]
    split
    · rename_i hat
      rw [← hat, hnew]
      constructor
      · rintro ⟨_, hr', _⟩
        cases hr'
      · rintro ⟨_, hr', hmem⟩
        cases hr'
        rw [hids] at hmem
        exact absurd (List.mem_singleton.mp hmem).symm hid
    · exact Iff.rfl

theorem synced_empty : ({} : MemoryStore).Synced .empty := by
  intro p
  rw [agrees_iff]
  intro id
  rw [Manifest.get?_empty]
  constructor
  · rintro ⟨_, hx, _⟩
    cases hx
  · rintro ⟨_, hr, _⟩
    cases hr

theorem synced_single (e : EmbeddedEntity) (r : FileRecord) (now : Duration)
    (hpath : r.path = e.entity.filePath) (hids : r.entityIds = [e.entity.id]) :
    (({} : MemoryStore).upsert [e]).Synced (Manifest.empty.recordIndexed r now) :=
  synced_empty.joined e r now hpath hids (Manifest.get?_empty _) rfl

theorem Synced.clear (h : s.Synced m) (path : String) (now : Duration) :
    ((StoreEdit.clear path).apply s).Synced (m.removeFile path now) := by
  intro p
  have hp := (agrees_iff s m p).mp (h p)
  rw [agrees_iff]
  intro id
  rw [holds_clear, hp, Manifest.get?_removeFile]
  by_cases hpath : path = p
  · rw [if_pos hpath]
    refine ⟨fun h => absurd hpath.symm h.2, ?_⟩
    rintro ⟨r, hr, _⟩
    cases hr
  · rw [if_neg hpath]
    exact ⟨fun h => h.1, fun h => ⟨h, Ne.symm hpath⟩⟩

/-- What the store holds of each path once the entries of a file are moved. A target without a record
has no entries to make way. -/
theorem Synced.holds_moved (h : s.Synced m) {source : String} (hsource : (m.get? source).isSome)
    (target p id : String) :
    (s.edited (World.moveEdits source target (m.get? target).isSome)).Holds p id ↔
      (p = target ∧ source ≠ target ∧ s.Holds source id) ∨
      (p ≠ source ∧ p ≠ target ∧ s.Holds p id) := by
  unfold World.moveEdits edited
  cases htarget : m.get? target with
  | none =>
    -- a target without a record has no entries, and is not the source
    have hnone : ∀ id, ¬ s.Holds target id := by
      intro id hid
      obtain ⟨r, hr, _⟩ := (agrees_iff s m target).mp (h target) id |>.mp hid
      rw [htarget] at hr
      cases hr
    have hne : source ≠ target := by
      rintro rfl
      rw [htarget] at hsource
      cases hsource
    show ((StoreEdit.move source target).apply s).Holds p id ↔ _
    rw [holds_move]
    constructor
    · rintro (⟨hp, hid⟩ | ⟨hp, hid⟩)
      · exact .inl ⟨hp, hne, hid⟩
      · refine .inr ⟨hp, ?_, hid⟩
        rintro rfl
        exact hnone id hid
    · rintro (⟨hp, _, hid⟩ | ⟨hp, _, hid⟩)
      · exact .inl ⟨hp, hid⟩
      · exact .inr ⟨hp, hid⟩
  | some r =>
    show ((StoreEdit.move source target).apply ((StoreEdit.clear target).apply s)).Holds p id ↔ _
    rw [holds_move, holds_clear, holds_clear]
    constructor
    · rintro (⟨hp, hid, hne⟩ | ⟨hp, hid, hne⟩)
      · exact .inl ⟨hp, hne, hid⟩
      · exact .inr ⟨hp, hne, hid⟩
    · rintro (⟨hp, hne, hid⟩ | ⟨hp, hne, hid⟩)
      · exact .inl ⟨hp, hid, hne⟩
      · exact .inr ⟨hp, hid, hne⟩

theorem Synced.relocated (h : s.Synced m) (plan : RunPlan) (source target : String) (r : FileRecord)
    (hr : m.get? source = some r) (now : Duration) :
    (s.edited (World.moveEdits source target (m.get? target).isSome)).Synced
      (RunState.relocated m plan source target now) := by
  have hall (p : String) := (agrees_iff s m p).mp (h p)
  have hheld := h.holds_moved (by rw [hr]; rfl : (m.get? source).isSome) target
  intro p
  rw [agrees_iff]
  intro id
  rw [hheld]
  by_cases hne : source = target
  · -- a file that is moved onto itself is dropped with its entries
    subst hne
    rw [RunState.get?_relocated_self m plan now source (by rw [hr]; rfl)]
    by_cases hp : source = p
    · rw [if_pos hp]
      constructor
      · rintro (⟨_, hself, _⟩ | ⟨hout, _⟩)
        · exact absurd rfl hself
        · exact absurd hp.symm hout
      · rintro ⟨r', hr', _⟩
        cases hr'
    · rw [if_neg hp, ← hall p id]
      constructor
      · rintro (⟨_, hself, _⟩ | ⟨_, _, hid⟩)
        · exact absurd rfl hself
        · exact hid
      · exact fun hid => .inr ⟨Ne.symm hp, Ne.symm hp, hid⟩
  · rw [RunState.get?_relocated m plan source target now r hr hne p]
    by_cases htarget : target = p
    · rw [if_pos htarget]
      constructor
      · rintro (⟨_, _, hid⟩ | ⟨_, hout, _⟩)
        · obtain ⟨r', hr', hmem⟩ := (hall source id).mp hid
          rw [hr] at hr'
          cases hr'
          exact ⟨_, rfl, hmem⟩
        · exact absurd htarget.symm hout
      · rintro ⟨r', hr', hmem⟩
        cases hr'
        exact .inl ⟨htarget.symm, hne, (hall source id).mpr ⟨r, hr, hmem⟩⟩
    · rw [if_neg htarget]
      by_cases hsource : source = p
      · rw [if_pos hsource]
        constructor
        · rintro (⟨hp, _⟩ | ⟨hout, _⟩)
          · exact absurd hp.symm htarget
          · exact absurd hsource.symm hout
        · rintro ⟨r', hr', _⟩
          cases hr'
      · rw [if_neg hsource, ← hall p id]
        constructor
        · rintro (⟨hp, _⟩ | ⟨_, _, hid⟩)
          · exact absurd hp.symm htarget
          · exact hid
        · exact fun hid => .inr ⟨Ne.symm hsource, Ne.symm htarget, hid⟩

end MemoryStore

namespace Shape

variable (plan : RunPlan) (hashOf : String → Option ContentHash)

theorem rename_synced (s : MemoryStore) (shape : Shape) (ends : String × String)
    (h : (s.edited shape.edits).Synced shape.manifest) :
    (s.edited (shape.rename plan hashOf ends).edits).Synced
      (shape.rename plan hashOf ends).manifest := by
  unfold rename
  split
  · exact h
  · exact h
  · rename_i r hash hr _
    split
    · show (s.edited (_ ++ _)).Synced _
      rw [MemoryStore.edited, List.foldl_append]
      exact h.relocated plan ends.1 ends.2 r hr .zero
    · show (s.edited (_ ++ _)).Synced _
      rw [MemoryStore.edited, List.foldl_append]
      exact h.clear ends.1 .zero

/-- Deletions and renames keep the store synced with the records. -/
theorem ofChanges_synced (s : MemoryStore) (changes : ChangeSet) (m : Manifest) (h : s.Synced m) :
    (s.edited (ofChanges plan hashOf changes m).edits).Synced
      (ofChanges plan hashOf changes m).manifest := by
  have hdeletions (paths : List String) (shape : Shape)
      (h : (s.edited shape.edits).Synced shape.manifest) :
      (s.edited (paths.foldl forget shape).edits).Synced (paths.foldl forget shape).manifest := by
    induction paths generalizing shape with
    | nil => exact h
    | cons path rest ih =>
      apply ih (shape.forget path)
      show (s.edited (_ ++ _)).Synced _
      rw [MemoryStore.edited, List.foldl_append]
      exact h.clear path .zero
  have hrenames (renames : List (String × String)) (shape : Shape)
      (h : (s.edited shape.edits).Synced shape.manifest) :
      (s.edited (renames.foldl (rename plan hashOf) shape).edits).Synced
        (renames.foldl (rename plan hashOf) shape).manifest := by
    induction renames generalizing shape with
    | nil => exact h
    | cons ends rest ih => exact ih _ (rename_synced plan hashOf s shape ends h)
  exact hrenames _ _ (hdeletions _ _ h)

end Shape

end CodeIndex
