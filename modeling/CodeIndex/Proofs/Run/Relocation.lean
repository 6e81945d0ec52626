import CodeIndex.Proofs.Change.Sound
import CodeIndex.Proofs.Run.Agreement
import CodeIndex.Proofs.Run.Touching

/-!
What deletions and renames make of a file that is moved, and of everything beside it. The edits of a
run are split at the move: those before and after it are about other paths, so an entry is followed
from one side to the other by its id.
-/

namespace CodeIndex

open StateDir

namespace StoredEntity

variable {paths : List String} {x : StoredEntity}

def movedTo (x : StoredEntity) (path : String) : StoredEntity :=
  { x with entity := { x.entity with filePath := path } }

/-- An entry that is of no concern to edits over some paths: a curated one, or one of another
path. -/
def Outside (paths : List String) (x : StoredEntity) : Prop :=
  x.origin = .curated ∨ x.entity.filePath ∉ paths

theorem Outside.not_derivedFor (h : x.Outside paths) {p : String} (hp : p ∈ paths) :
    ¬ x.isDerivedFor p = true := by
  rw [MemoryStore.isDerivedFor_iff]
  rintro ⟨horigin, hpath⟩
  rcases h with h | h
  · rw [h] at horigin
    cases horigin
  · exact h (hpath ▸ hp)

theorem outside_of_derivedFor {p : String} (h : x.isDerivedFor p = true) (hp : p ∉ paths) :
    x.Outside paths := by
  obtain ⟨_, hpath⟩ := (MemoryStore.isDerivedFor_iff x p).mp h
  exact .inr (hpath ▸ hp)

theorem derivedFor_movedTo {p q : String} (h : x.isDerivedFor p = true) :
    (x.movedTo q).isDerivedFor q = true :=
  (MemoryStore.isDerivedFor_iff _ q).mpr ⟨((MemoryStore.isDerivedFor_iff x p).mp h).1, rfl⟩

end StoredEntity

namespace StoreEdit

variable {paths : List String} {x : StoredEntity}

/-- Clearing and moving paths leaves the other entries alone, and makes none of them. -/
theorem get?_outside (edit : StoreEdit) (h : edit.Over paths) (hx : x.Outside paths)
    (s : MemoryStore) (id : String) : (edit.apply s).get? id = some x ↔ s.get? id = some x := by
  rw [get?_apply]
  cases edit with
  | clear path =>
    have hother : ¬ x.isDerivedFor path = true := hx.not_derivedFor h
    simp only [onEntry, Option.filter_eq_some_iff]
    constructor
    · exact fun hget => hget.1
    · exact fun hget => ⟨hget, by simpa using hother⟩
  | move source target =>
    have hsource : ¬ x.isDerivedFor source = true := hx.not_derivedFor h.1
    have htarget : ¬ x.isDerivedFor target = true := hx.not_derivedFor h.2
    simp only [onEntry, Option.map_eq_some_iff]
    constructor
    · rintro ⟨y, hy, heq⟩
      split at heq
      · -- an entry that is moved stands at the target
        rename_i hmoved
        rw [← heq] at htarget
        exact absurd (StoredEntity.derivedFor_movedTo hmoved) htarget
      · rw [hy, heq]
    · exact fun hget => ⟨x, hget, if_neg hsource⟩
  | write entities => exact h.elim
  | drop ids => exact h.elim

theorem get?_none (edit : StoreEdit) (h : edit.Over paths) (s : MemoryStore) (id : String)
    (hnone : s.get? id = none) : (edit.apply s).get? id = none := by
  rw [get?_apply, hnone]
  cases edit with
  | clear path => rfl
  | move source target => rfl
  | write entities => exact h.elim
  | drop ids => exact h.elim

end StoreEdit

namespace MemoryStore

variable {paths : List String} {edits : List StoreEdit} (s : MemoryStore)

theorem get?_edited_outside (h : ∀ edit ∈ edits, edit.Over paths) {x : StoredEntity}
    (hx : x.Outside paths) (id : String) :
    (s.edited edits).get? id = some x ↔ s.get? id = some x := by
  -- by the edits, as each of them leaves the entry to the next one
  induction edits generalizing s with
  | nil => exact Iff.rfl
  | cons edit rest ih =>
    have hone := edit.get?_outside (h edit List.mem_cons_self) hx s id
    have hrest := ih (edit.apply s) fun e he => h e (List.mem_cons_of_mem _ he)
    exact hrest.trans hone

theorem get?_edited_none (h : ∀ edit ∈ edits, edit.Over paths) (id : String)
    (hnone : s.get? id = none) : (s.edited edits).get? id = none := by
  induction edits generalizing s with
  | nil => exact hnone
  | cons edit rest ih =>
    have hone := edit.get?_none (h edit List.mem_cons_self) s id hnone
    exact ih (edit.apply s) (fun e he => h e (List.mem_cons_of_mem _ he)) hone

theorem holds_edited_outside (h : ∀ edit ∈ edits, edit.Over paths) {p : String} (hp : p ∉ paths)
    (id : String) : (s.edited edits).Holds p id ↔ s.Holds p id :=
  StoreEdit.local_holds edits s (StoreEdit.local_of_over edits s h) p hp id

/-- A move takes an entry of the source to the target, whether or not the target is cleared. -/
theorem get?_moveEdits {source target id : String} {x : StoredEntity} (hne : source ≠ target)
    (hget : s.get? id = some x) (hx : x.isDerivedFor source = true) (had : Bool) :
    (s.edited (World.moveEdits source target had)).get? id = some (x.movedTo target) := by
  have hmoved (st : MemoryStore) (hst : st.get? id = some x) :
      ((StoreEdit.move source target).apply st).get? id = some (x.movedTo target) := by
    rw [StoreEdit.get?_apply, hst]
    simp only [StoreEdit.onEntry, Option.map_some, if_pos hx]
    rfl
  cases had with
  | false => exact hmoved s hget
  | true =>
    apply hmoved
    have hother : x.Outside [target] := StoredEntity.outside_of_derivedFor hx (by simpa using hne)
    exact ((StoreEdit.clear target).get?_outside (by simp [StoreEdit.Over]) hother s id).mpr hget

theorem get?_moveEdits_target {source target id : String} (h : s.Holds target id) :
    (s.edited (World.moveEdits source target true)).get? id = none := by
  obtain ⟨x, hget, hx⟩ := h
  have hcleared : ((StoreEdit.clear target).apply s).get? id = none := by
    rw [StoreEdit.get?_apply, hget]
    simp [StoreEdit.onEntry, hx]
  have hover : (StoreEdit.move source target).Over [source, target] := by simp [StoreEdit.Over]
  exact (StoreEdit.move source target).get?_none hover _ id hcleared

end MemoryStore

/-- No other deletion or rename of some changes is about the ends of a rename. -/
def ChangeSet.Alone (c : ChangeSet) (e : String × String) : Prop :=
  ∃ before after, c.renamed = before ++ e :: after ∧
    ∀ p ∈ RunState.structuralPaths { c with renamed := before ++ after }, p ≠ e.1 ∧ p ≠ e.2

/-- A file was moved: its derived entries are those of the source with their path changed and
nothing else, what was at the target before is gone, and its record is that of the source, seen at
the commit checked out. -/
structure Moved (plan : RunPlan) (e : String × String) (st st' : MemoryStore) (m m' : Manifest) :
    Prop where
  entries : ∀ id x, st.get? id = some x → x.isDerivedFor e.1 = true →
    st'.get? id = some (x.movedTo e.2)
  nothingElse : ∀ id, st'.Holds e.2 id → st.Holds e.1 id
  replaced : ∀ id, st.Holds e.2 id → st'.get? id = none
  left : ∀ id, ¬ st'.Holds e.1 id
  record : ∀ r, m.get? e.1 = some r → m'.get? e.2 = some { r with
    path := e.2
    lastSeenCommit := plan.head.or r.lastSeenCommit
    diverged := plan.isDiverged e.2 }
  unrecorded : m'.get? e.1 = none

/-- Nothing has changed outside some paths: curated entries, entries of other paths and records of
other paths are the same. -/
structure SameOutside (paths : List String) (st st' : MemoryStore) (m m' : Manifest) : Prop where
  entries : ∀ id (x : StoredEntity), x.Outside paths →
    (st'.get? id = some x ↔ st.get? id = some x)
  records : ∀ p ∉ paths, m'.get? p = m.get? p

namespace Shape

variable (plan : RunPlan) (hashOf : String → Option ContentHash) (changes : ChangeSet)
  {m : Manifest} {st : MemoryStore}

theorem ofChanges_sameOutside :
    SameOutside (RunState.structuralPaths changes) st
      (st.edited (ofChanges plan hashOf changes m).edits) m
      (ofChanges plan hashOf changes m).manifest where
  entries id _ hx := st.get?_edited_outside (ofChanges_over changes m) hx id
  records := (ofChanges_within changes m).records

/-- A rename that is alone, between two paths of the same content, moves its file, whatever the
other changes are. -/
theorem ofChanges_moved (hsynced : st.Synced m) {e : String × String} (halone : changes.Alone e)
    (hne : e.1 ≠ e.2) {r : FileRecord} (hr : m.get? e.1 = some r)
    (hhash : hashOf e.2 = some r.contentHash) :
    Moved plan e st (st.edited (ofChanges plan hashOf changes m).edits) m
      (ofChanges plan hashOf changes m).manifest := by
  obtain ⟨before, after, hsplit, hothers⟩ := halone
  let others : ChangeSet := { changes with renamed := before ++ after }
  let paths := RunState.structuralPaths others
  have hsource : e.1 ∉ paths := fun h => (hothers _ h).1 rfl
  have htarget : e.2 ∉ paths := fun h => (hothers _ h).2 rfl
  have hends (x : String × String) (hx : x ∈ before ++ after) : x.1 ∈ paths ∧ x.2 ∈ paths :=
    ⟨(mem_structuralPaths others _).mpr (.inr ⟨x, hx, .inl rfl⟩),
      (mem_structuralPaths others _).mpr (.inr ⟨x, hx, .inr rfl⟩)⟩
  -- the shapes right before and right after the move
  let s₁ := ofChanges plan hashOf { changes with renamed := before } m
  let s₂ : Shape := { s₁ with
    manifest := RunState.relocated s₁.manifest plan e.1 e.2 .zero
    edits := s₁.edits ++ World.moveEdits e.1 e.2 (s₁.manifest.get? e.2).isSome }
  have hfront : Within paths (start m) s₁ := by
    apply (deletions_within changes.deleted (start m) fun p hp =>
      (mem_structuralPaths others p).mpr (.inl hp)).trans
    exact renames_within before _ fun x hx => hends x (List.mem_append_left _ hx)
  have hr₁ : s₁.manifest.get? e.1 = some r := (hfront.records e.1 hsource).trans hr
  have hmove : s₁.rename plan hashOf e = s₂ := by
    simp only [rename, hr₁, hhash, if_true]
    rfl
  have hshape : ofChanges plan hashOf changes m = after.foldl (rename plan hashOf) s₂ := by
    rw [← hmove]
    simp only [ofChanges, hsplit, List.foldl_append, List.foldl_cons, s₁]
  have hback : Within paths s₂ (ofChanges plan hashOf changes m) := by
    rw [hshape]
    exact renames_within after s₂ fun x hx => hends x (List.mem_append_right _ hx)
  -- the store at these three points
  obtain ⟨edits₁, hedits₁, hover₁⟩ := hfront.edits
  obtain ⟨edits₃, hedits₃, hover₃⟩ := hback.edits
  let st₁ := st.edited s₁.edits
  let st₂ := st₁.edited (World.moveEdits e.1 e.2 (s₁.manifest.get? e.2).isSome)
  have hfinal : st.edited (ofChanges plan hashOf changes m).edits = st₂.edited edits₃ := by
    rw [hedits₃, MemoryStore.edited_append]
    simp only [s₂, MemoryStore.edited_append]
    rfl
  have hover : ∀ edit ∈ s₁.edits, edit.Over paths := by
    rw [hedits₁]
    exact hover₁
  have hsynced₁ : st₁.Synced s₁.manifest := ofChanges_synced plan hashOf st _ m hsynced
  have hheld (p id : String) := hsynced₁.holds_moved (by rw [hr₁]; rfl :
    (s₁.manifest.get? e.1).isSome) e.2 p id
  rw [hfinal]
  refine ⟨fun id x hget hx => ?_, fun id hid => ?_, fun id hid => ?_, fun id hid => ?_,
    fun r' hr' => ?_, ?_⟩
  · have hfound : st₁.get? id = some x :=
      (st.get?_edited_outside hover (StoredEntity.outside_of_derivedFor hx hsource) id).mpr hget
    have hmoved : st₂.get? id = some (x.movedTo e.2) := st₁.get?_moveEdits hne hfound hx _
    have hthere := StoredEntity.outside_of_derivedFor
      (StoredEntity.derivedFor_movedTo (q := e.2) hx) htarget
    exact (st₂.get?_edited_outside hover₃ hthere id).mpr hmoved
  · rw [st₂.holds_edited_outside hover₃ htarget, hheld] at hid
    rcases hid with ⟨_, _, hid⟩ | ⟨_, hself, _⟩
    · exact (st.holds_edited_outside hover hsource id).mp hid
    · exact absurd rfl hself
  · have hid₁ : st₁.Holds e.2 id := (st.holds_edited_outside hover htarget id).mpr hid
    -- a target with entries has a record, so that it is cleared ahead of the move
    obtain ⟨r', hr', _⟩ := ((MemoryStore.agrees_iff _ _ _).mp (hsynced₁ e.2) id).mp hid₁
    have hgone : st₂.get? id = none := by
      simp only [st₂, hr', Option.isSome_some]
      exact st₁.get?_moveEdits_target hid₁
    exact st₂.get?_edited_none hover₃ id hgone
  · rw [st₂.holds_edited_outside hover₃ hsource, hheld] at hid
    rcases hid with ⟨hself, _⟩ | ⟨hself, _⟩
    · exact hne hself
    · exact hself rfl
  · have hsame : r' = r := Option.some.inj (hr'.symm.trans hr)
    rw [hback.records e.2 htarget, hsame]
    exact (RunState.get?_relocated _ plan e.1 e.2 .zero r hr₁ hne e.2).trans (if_pos rfl)
  · rw [hback.records e.1 hsource]
    refine (RunState.get?_relocated _ plan e.1 e.2 .zero r hr₁ hne e.1).trans ?_
    rw [if_neg (Ne.symm hne), if_pos rfl]

end Shape

namespace RunState

variable (setting : RunSetting MemoryStore) {home : Location}

variable {setting} in
theorem Shaped.settled {s t u v : RunState MemoryStore} {shape : Shape} {begun touched : List String}
    (hu : Shaped setting home s (s.begunBatch begun).world shape u)
    (hv : Committed home touched u v) (hquiet : Quiet setting.env v t) :
    t.world.store = s.world.store.edited shape.edits ∧
      ∀ p, t.manifest.get? p = shape.manifest.get? p := by
  have hcore : t.core = { u.core with disk := v.world.disk, moments := v.world.moments } :=
    hquiet.core.trans hv.core
  have hstored : t.world.store = u.world.store := congrArg Core.store hcore
  have hrecords : t.manifest = u.manifest := congrArg Core.manifest hcore
  refine ⟨?_, fun p => by rw [hrecords, hu.manifest p]⟩
  rw [hstored, hu.world, World.performed_store]
  rfl

/-- Where no call to the store fails, deletions and renames come to their shape. -/
theorem applyStructural_returns (hstill : setting.env.Still)
    (hproceeds : ∀ call n, setting.env.atStore call n = .proceed)
    (hstore : setting.store = MemoryStore.calls) (plan : RunPlan) (changes : ChangeSet)
    (s : RunState MemoryStore) (hready : Ready setting.stateDir home s.world.disk) :
    let shape := Shape.ofChanges plan (setting.hashOf s.world.disk) changes s.manifest
    ∃ reindex t, (applyStructural setting plan changes).run s = (.ok reindex, t) ∧
      t.world.store = s.world.store.edited shape.edits ∧
      ∀ p, t.manifest.get? p = shape.manifest.get? p := by
  intro shape
  have hrun := applyStructural_committed setting hstill hstore plan changes s hready
  apply runs_returns
  apply runs_imp _ _ _ hrun
  · rintro reindex t ⟨_, u, v, hu, ⟨touched, hv⟩, hquiet⟩
    exact hu.settled hv hquiet
  · rintro _ _ ⟨_, _, ⟨_, edit, _, _, _, hfail, _⟩, _⟩
    rw [hproceeds] at hfail
    cases hfail

/-- Confirmed deletions and renames, done on a store that is in step with the manifest. A file that
is renamed by itself to a path with its recorded content keeps its entries and its record under the
new path; nothing else takes their place or stays behind. Outside the paths of the changes nothing
changes, and no request is made. -/
theorem applyStructural_moves {look : String → FileState} (hstill : setting.env.Still)
    (hproceeds : ∀ call n, setting.env.atStore call n = .proceed)
    (hstore : setting.store = MemoryStore.calls) (plan : RunPlan) (changes : ChangeSet)
    (s : RunState MemoryStore) (hready : Ready setting.stateDir home s.world.disk)
    (hsynced : s.world.store.Synced s.manifest)
    (hconfirmed : Evident s.manifest look changes) :
    ∃ reindex t, (applyStructural setting plan changes).run s = (.ok reindex, t) ∧
      (∀ e ∈ changes.renamed, changes.Alone e →
        setting.hashOf s.world.disk e.2 = s.manifest.hashAt e.1 →
        Moved plan e s.world.store t.world.store s.manifest t.manifest) ∧
      SameOutside (structuralPaths changes) s.world.store t.world.store s.manifest t.manifest ∧
      t.world.requests = s.world.requests := by
  obtain ⟨reindex, t, hrun, hstored, hrecords⟩ :=
    applyStructural_returns setting hstill hproceeds hstore plan changes s hready
  let shape := Shape.ofChanges plan (setting.hashOf s.world.disk) changes s.manifest
  have houtside : SameOutside (structuralPaths changes) s.world.store
      (s.world.store.edited shape.edits) s.manifest shape.manifest :=
    Shape.ofChanges_sameOutside plan _ changes
  refine ⟨reindex, t, hrun, fun e he halone hhash => ?_, ?_, ?_⟩
  · obtain ⟨hsome, _⟩ := hconfirmed.renamed e he
    obtain ⟨r, hr⟩ := Option.isSome_iff_exists.mp hsome
    have hread : setting.hashOf s.world.disk e.2 = some r.contentHash := by
      rw [hhash, Manifest.hashAt, hr]
      rfl
    have hmoved := Shape.ofChanges_moved plan (setting.hashOf s.world.disk) changes hsynced halone
      (hconfirmed.unchained he he) hr hread
    rw [hstored]
    exact ⟨hmoved.entries, hmoved.nothingElse, hmoved.replaced, hmoved.left,
      fun r' hr' => (hrecords e.2).trans (hmoved.record r' hr'),
      (hrecords e.1).trans hmoved.unrecorded⟩
  · rw [hstored]
    exact ⟨houtside.entries, fun p hp => (hrecords p).trans (houtside.records p hp)⟩
  · have htouched := runs_ok _ reindex t (applyStructural_touches setting plan changes s) hrun
    exact World.Touched.requests htouched

end RunState

section Relocated

open RunSetting RunState

def relocatedChanges : ChangeSet := { deleted := ["d.py"], renamed := [("a.py", "b.py")] }

def relocatedState : RunState MemoryStore :=
  namedSetting.startState
    { disk := sampleDisk [("b.py", "a"), ("e.py", "e")]
      store := namedStore ["a", "b", "d", "e"]
      clock := ⟨⟨2024, 1, 1⟩, 0, 0⟩ }
    ⟨sampleCheckpoint "old", namedManifest ["a", "b", "d", "e"], false⟩ (sampleCheckpoint "old")
    ⟨relocatedChanges, .supplied, none, []⟩

theorem relocated_known :
    relocatedState.world.store.get? "a" = some ⟨namedEntity "a", [], .derived⟩ ∧
    relocatedState.world.store.get? "b" = some ⟨namedEntity "b", [], .derived⟩ ∧
    relocatedState.world.store.get? "e" = some ⟨namedEntity "e", [], .derived⟩ ∧
    relocatedState.manifest.get? "a.py" = some (namedRecord "a") ∧
    relocatedState.manifest.get? "e.py" = some (namedRecord "e") := by
  decide +kernel

theorem relocated_confirmed : Evident relocatedState.manifest
    (fun p => if p = "b.py" then .present "" else .missing) relocatedChanges where
  added p hp := absurd hp List.not_mem_nil
  modified p hp := absurd hp List.not_mem_nil
  deleted p hp := by
    rw [List.mem_singleton.mp hp]
    exact ⟨by decide +kernel, .inl rfl⟩
  renamed e he := by
    rw [List.mem_singleton.mp he]
    exact ⟨by decide +kernel, rfl, "", rfl⟩

/-- The entry of the file stands under the new path with its id, its text and its vector, and its
record with it. What was there before is gone, and another file is as it was. -/
theorem relocated_entry : ∃ reindex t,
    (applyStructural namedSetting ⟨none, false, .noHistory, false⟩ relocatedChanges).run
      relocatedState = (.ok reindex, t) ∧
    t.world.store.get? "a" = some ⟨{ namedEntity "a" with filePath := "b.py" }, [], .derived⟩ ∧
    t.manifest.get? "b.py" = some { namedRecord "a" with path := "b.py" } ∧
    t.world.store.get? "b" = none ∧ t.manifest.get? "a.py" = none ∧
    t.world.store.get? "e" = some ⟨namedEntity "e", [], .derived⟩ ∧
    t.manifest.get? "e.py" = some (namedRecord "e") := by
  have hready : Ready namedSetting.stateDir sampleHome relocatedState.world.disk := by
    rw [namedSetting, sample_stateDir]
    apply sample_ready <;> decide
  have hsynced : relocatedState.world.store.Synced relocatedState.manifest :=
    named_synced (by decide : ["a", "b", "d", "e"].Nodup)
  obtain ⟨ha, hb, he, hrecord, hother⟩ := relocated_known
  have hread : namedSetting.hashOf relocatedState.world.disk "b.py" =
      relocatedState.manifest.hashAt "a.py" := by
    have hfile : relocatedState.world.disk.readFile (Path.join namedSetting.root "b.py") =
        .ok ("a".toUTF8, 0) := by decide
    unfold RunSetting.hashOf Manifest.hashAt
    rw [hfile, hrecord]
    rfl
  have halone : relocatedChanges.Alone ("a.py", "b.py") :=
    ⟨[], [], rfl, fun p hp => by rw [List.mem_singleton.mp hp]; decide⟩
  obtain ⟨reindex, t, hrun, hmoved, houtside, _⟩ := applyStructural_moves namedSetting
    (sample_still _ _) (fun _ _ => rfl) rfl ⟨none, false, .noHistory, false⟩ relocatedChanges
    relocatedState hready hsynced relocated_confirmed
  have hfile := hmoved ("a.py", "b.py") (List.mem_singleton_self _) halone hread
  have hapart : "e.py" ∉ structuralPaths relocatedChanges := by decide
  have hkept := (houtside.entries "e" ⟨namedEntity "e", [], .derived⟩ (.inr hapart)).mpr he
  exact ⟨reindex, t, hrun, hfile.entries "a" _ ha (by decide), hfile.record _ hrecord,
    hfile.replaced "b" ⟨_, hb, by decide⟩, hfile.unrecorded, hkept,
    (houtside.records "e.py" hapart).trans hother⟩

end Relocated

end CodeIndex
