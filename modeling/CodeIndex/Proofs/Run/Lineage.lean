import CodeIndex.Proofs.Run.Balance
import CodeIndex.Proofs.Run.Described
import CodeIndex.Proofs.Run.Unwritten

/-!
The identities of files through a history of runs. A record that is moved takes its lineage along, so
that a file which is indexed under a path of old may be given a lineage that is still in use.
-/

namespace CodeIndex

open StateDir

def FileRecord.Coined (r : FileRecord) : Prop :=
  ∀ id ∈ r.entityIds, ∃ kind name line variant hash,
    id = entityId r.lineage kind name line variant hash

namespace Manifest

def Descends (m m' : Manifest) : Prop :=
  ∃ origin : String → String,
    (∀ p q, (m'.get? p).isSome → (m'.get? q).isSome → origin p = origin q → p = q) ∧
    ∀ p r', m'.get? p = some r' → ∃ r, m.get? (origin p) = some r ∧ r'.lineage = r.lineage ∧
      r'.entityIds = r.entityIds

def Grows (m m' : Manifest) : Prop :=
  ∀ p, (m'.get? p).map FileRecord.essence = (m.get? p).map FileRecord.essence ∨
    ∃ r, m'.get? p = some r ∧ r.lineage = ((m.get? p).map (·.lineage)).getD (lineageFor p) ∧
      r.Coined

/-- Lineages tell the recorded files apart. -/
def LineagesApart (m : Manifest) : Prop :=
  ∀ p q r s, m.get? p = some r → m.get? q = some s → r.lineage = s.lineage → p = q

/-- No id is recorded for two files. -/
def IdsApart (m : Manifest) : Prop :=
  ∀ p q r s, m.get? p = some r → m.get? q = some s → p ≠ q → ∀ id ∈ r.entityIds, id ∉ s.entityIds

/-- Digests of different fields are different, as far as they occur in the records. -/
structure CollisionFree (m : Manifest) : Prop where
  paths : ∀ p q, (m.get? p).isSome → (m.get? q).isSome → lineageFor p = lineageFor q → p = q
  ids : ∀ p q r s, m.get? p = some r → m.get? q = some s →
    ∀ kind name line variant hash kind' name' line' variant' hash',
    entityId r.lineage kind name line variant hash ∈ r.entityIds →
    entityId s.lineage kind' name' line' variant' hash' ∈ s.entityIds →
    entityId r.lineage kind name line variant hash =
      entityId s.lineage kind' name' line' variant' hash' → r.lineage = s.lineage

variable {m m' m'' : Manifest}

/-- Where lineages tell the files apart, so do the ids made of them. -/
theorem LineagesApart.idsApart (h : m.LineagesApart)
    (hcoined : ∀ p r, m.get? p = some r → r.Coined) (hfree : m.CollisionFree) : m.IdsApart := by
  intro p q r s hr hs hne id hid hid'
  obtain ⟨kind, name, line, variant, hash, rfl⟩ := hcoined p r hr id hid
  obtain ⟨kind', name', line', variant', hash', heq⟩ := hcoined q s hs _ hid'
  have hlineage := hfree.ids p q r s hr hs kind name line variant hash kind' name' line' variant'
    hash' hid (heq ▸ hid') heq
  exact hne (h p q r s hr hs hlineage)

theorem Descends.refl (m : Manifest) : m.Descends m :=
  ⟨id, fun _ _ _ _ h => h, fun _ r' h => ⟨r', h, rfl, rfl⟩⟩

theorem Descends.trans (h : m.Descends m') (h' : m'.Descends m'') : m.Descends m'' := by
  obtain ⟨f, hf, hfrom⟩ := h
  obtain ⟨g, hg, hgfrom⟩ := h'
  have hsome (p : String) (hp : (m''.get? p).isSome) : (m'.get? (g p)).isSome := by
    obtain ⟨r, hr⟩ := Option.isSome_iff_exists.mp hp
    obtain ⟨r', hr', _, _⟩ := hgfrom p r hr
    rw [hr']
    rfl
  refine ⟨fun p => f (g p), fun p q hp hq heq => ?_, fun p r'' hr => ?_⟩
  · exact hg p q hp hq (hf _ _ (hsome p hp) (hsome q hq) heq)
  · obtain ⟨r', hr', hlineage, hids⟩ := hgfrom p r'' hr
    obtain ⟨r, hr, hlineage', hids'⟩ := hfrom (g p) r' hr'
    exact ⟨r, hr, hlineage.trans hlineage', hids.trans hids'⟩

theorem Descends.lineagesApart (h : m.Descends m') (hm : m.LineagesApart) : m'.LineagesApart := by
  obtain ⟨origin, horigin, hfrom⟩ := h
  intro p q r s hr hs heq
  obtain ⟨r', hr', hlineage, _⟩ := hfrom p r hr
  obtain ⟨s', hs', hlineage', _⟩ := hfrom q s hs
  apply horigin p q
  · rw [hr]
    rfl
  · rw [hs]
    rfl
  · exact hm _ _ r' s' hr' hs' (by rw [← hlineage, ← hlineage', heq])

theorem Descends.idsApart (h : m.Descends m') (hm : m.IdsApart) : m'.IdsApart := by
  obtain ⟨origin, horigin, hfrom⟩ := h
  intro p q r s hr hs hne id hid hid'
  obtain ⟨r', hr', _, hids⟩ := hfrom p r hr
  obtain ⟨s', hs', _, hids'⟩ := hfrom q s hs
  have hapart : origin p ≠ origin q := by
    refine fun heq => hne (horigin p q ?_ ?_ heq)
    · rw [hr]
      rfl
    · rw [hs]
      rfl
  exact hm _ _ r' s' hr' hs' hapart id (hids ▸ hid) (hids' ▸ hid')

theorem IdsApart.alike (h : m.IdsApart) (hm : m.Alike m') : m'.IdsApart := by
  intro p q r s hr hs hne id hid hid'
  obtain ⟨r', hr', _, _, hids⟩ := hm.symm.record hr
  obtain ⟨s', hs', _, _, hids'⟩ := hm.symm.record hs
  exact h p q r' s' hr' hs' hne id (hids ▸ hid) (hids' ▸ hid')

theorem Descends.coined (h : m.Descends m')
    (hm : ∀ p r, m.get? p = some r → r.Coined) (p : String) (r : FileRecord)
    (hr : m'.get? p = some r) : r.Coined := by
  obtain ⟨origin, _, hfrom⟩ := h
  obtain ⟨r', hr', hlineage, hids⟩ := hfrom p r hr
  have hcoined := hm _ r' hr'
  unfold FileRecord.Coined at *
  rw [hlineage, hids]
  exact hcoined

theorem Descends.removeFile (m : Manifest) (path : String) (now : Duration) :
    m.Descends (m.removeFile path now) := by
  refine ⟨id, fun _ _ _ _ h => h, fun p r hr => ?_⟩
  rw [get?_removeFile] at hr
  split at hr
  · cases hr
  · exact ⟨r, hr, rfl, rfl⟩

theorem Descends.relocated (m : Manifest) (plan : RunPlan) (source target : String)
    (now : Duration) (r : FileRecord) (hr : m.get? source = some r) :
    m.Descends (RunState.relocated m plan source target now) := by
  by_cases hne : source = target
  · subst hne
    refine ⟨id, fun _ _ _ _ h => h, fun p r' hr' => ?_⟩
    rw [RunState.get?_relocated_self m plan now source (by rw [hr]; rfl)] at hr'
    split at hr'
    · cases hr'
    · exact ⟨r', hr', rfl, rfl⟩
  · have hget := RunState.get?_relocated m plan source target now r hr hne
    refine ⟨fun p => if target = p then source else p, fun p q hp hq heq => ?_, fun p r' hr' => ?_⟩
    · -- the source has no record any more
      have hother (p : String) (hp : ((RunState.relocated m plan source target now).get? p).isSome)
          (htarget : target ≠ p) : source ≠ p := by
        rintro rfl
        rw [hget, if_neg htarget, if_pos rfl] at hp
        cases hp
      dsimp only at heq
      split at heq
      · rename_i hp'
        split at heq
        · rename_i hq'
          exact hp'.symm.trans hq'
        · rename_i hq'
          exact absurd heq (hother q hq hq')
      · rename_i hp'
        split at heq
        · exact absurd heq.symm (hother p hp hp')
        · exact heq
    · rw [hget] at hr'
      dsimp only
      split at hr'
      · rename_i hp
        cases hr'
        rw [if_pos hp]
        exact ⟨r, hr, rfl, rfl⟩
      · rename_i hp
        rw [if_neg hp]
        split at hr'
        · cases hr'
        · exact ⟨r', hr', rfl, rfl⟩

theorem Grows.kept (h : m.Grows m') (p : String) (r : FileRecord) (hr : m.get? p = some r) :
    ∃ r', m'.get? p = some r' ∧ r'.lineage = r.lineage := by
  rcases h p with hsame | ⟨r', hr', hlineage, _⟩
  · rw [hr, Option.map_some] at hsame
    obtain ⟨r', hr', hessence⟩ := Option.map_eq_some_iff.mp hsame
    exact ⟨r', hr', congrArg (fun e => e.2.1) hessence⟩
  · rw [hr] at hlineage
    exact ⟨r', hr', hlineage⟩

theorem Grows.new (h : m.Grows m') (p : String) (r' : FileRecord) (hp : m.get? p = none)
    (hr' : m'.get? p = some r') : r'.lineage = lineageFor p := by
  rcases h p with hsame | ⟨r, hr, hlineage, _⟩
  · rw [hr', hp] at hsame
    cases hsame
  · rw [hr'] at hr
    cases hr
    rw [hlineage, hp]
    rfl

/-- New records leave the files told apart exactly when none of them has a lineage that is in
use. -/
theorem Grows.lineagesApart_iff (h : m.Grows m') (hm : m.LineagesApart)
    (hpaths : ∀ p q, (m'.get? p).isSome → (m'.get? q).isSome → lineageFor p = lineageFor q →
      p = q) :
    m'.LineagesApart ↔ ∀ p q r, m.get? p = none → (m'.get? p).isSome → m.get? q = some r →
      r.lineage ≠ lineageFor p := by
  constructor
  · intro hapart p q r hp hin hr heq
    obtain ⟨r', hr', hlineage⟩ := h.kept q r hr
    obtain ⟨s', hs'⟩ := Option.isSome_iff_exists.mp hin
    have hsame := hapart p q s' r' hs' hr' (by rw [h.new p s' hp hs', hlineage, heq])
    rw [hsame, hr] at hp
    cases hp
  · intro hfresh p q r' s' hr' hs' heq
    have hp : (m'.get? p).isSome := by rw [hr']; rfl
    have hq : (m'.get? q).isSome := by rw [hs']; rfl
    -- either path may be new, and a new record has the lineage of its path
    cases hr : m.get? p with
    | none =>
      have hlineage := h.new p r' hr hr'
      cases hs : m.get? q with
      | none => exact hpaths p q hp hq (by rw [← hlineage, heq, h.new q s' hs hs'])
      | some s =>
        obtain ⟨s'', hs'', hsame⟩ := h.kept q s hs
        rw [hs'] at hs''
        cases hs''
        exact absurd (by rw [← hsame, ← heq, hlineage]) (hfresh p q s hr hp hs)
    | some r =>
      obtain ⟨r'', hr'', hsame⟩ := h.kept p r hr
      rw [hr'] at hr''
      cases hr''
      cases hs : m.get? q with
      | none =>
        exact absurd (by rw [← hsame, heq, h.new q s' hs hs']) (hfresh q p r hs hq hr)
      | some s =>
        obtain ⟨s'', hs'', hsame'⟩ := h.kept q s hs
        rw [hs'] at hs''
        cases hs''
        exact hm p q r s hr hs (by rw [← hsame, ← hsame', heq])

theorem Grows.coined (h : m.Grows m') (hm : ∀ p r, m.get? p = some r → r.Coined) (p : String)
    (r' : FileRecord) (hr' : m'.get? p = some r') : r'.Coined := by
  rcases h p with hsame | ⟨r, hr, _, hcoined⟩
  · rw [hr', Option.map_some] at hsame
    obtain ⟨r, hr, hessence⟩ := Option.map_eq_some_iff.mp hsame.symm
    have hcoined := hm p r hr
    have hlineage : r.lineage = r'.lineage := congrArg (fun e => e.2.1) hessence
    have hids : r.entityIds = r'.entityIds := congrArg (fun e => e.2.2) hessence
    unfold FileRecord.Coined at *
    rw [← hlineage, ← hids]
    exact hcoined
  · rw [hr'] at hr
    cases hr
    exact hcoined

theorem Grows.alike (h : m.Grows m') {n n' : Manifest} (hm : m.Alike n) (hm' : m'.Alike n') :
    n.Grows n' := by
  intro p
  have hlineage : (n.get? p).map (·.lineage) = (m.get? p).map (·.lineage) := by
    have heq := congrArg (Option.map fun e => e.2.1) (hm p)
    rw [Option.map_map, Option.map_map] at heq
    exact heq.symm
  rcases h p with hsame | ⟨r, hr, hr', hcoined⟩
  · exact .inl ((hm' p).symm.trans (hsame.trans (hm p)))
  · obtain ⟨r₁, hr₁, _, hlineage₁, hids₁⟩ := hm'.record hr
    refine .inr ⟨r₁, hr₁, ?_, ?_⟩
    · rw [hlineage₁, hr', hlineage]
    · unfold FileRecord.Coined at *
      rw [hlineage₁, hids₁]
      exact hcoined

end Manifest

namespace Shape

variable (plan : RunPlan) (hashOf hashOf' : String → Option ContentHash)

theorem ofChanges_descends (changes : ChangeSet) (m : Manifest) :
    m.Descends (ofChanges plan hashOf changes m).manifest :=
  ofChanges_rule plan hashOf m.Descends changes m (.refl m)
    (fun _ path h => h.trans (.removeFile _ path .zero))
    fun _ source target r hr _ h => h.trans (.relocated _ plan source target .zero r hr)

/-- A target with the content that is recorded takes over the record. -/
theorem rename_moved (s : Shape) (source target : String) (r : FileRecord)
    (hr : s.manifest.get? source = some r) (hhash : hashOf target = some r.contentHash) :
    s.rename plan hashOf (source, target) =
      { s with
        manifest := RunState.relocated s.manifest plan source target .zero
        edits := s.edits ++ World.moveEdits source target (s.manifest.get? target).isSome } := by
  unfold rename
  dsimp only
  rw [hr, hhash]
  dsimp only
  rw [if_pos rfl]

theorem ofChanges_congr (changes : ChangeSet) (m : Manifest)
    (h : ∀ e ∈ changes.renamed, hashOf e.2 = hashOf' e.2) :
    ofChanges plan hashOf changes m = ofChanges plan hashOf' changes m := by
  unfold ofChanges
  apply List.foldl_ext
  intro s ends hends
  unfold rename
  rw [h ends hends]

end Shape

/-- A file that is ready has the lineage of its record, or that of its path. -/
theorem prepare_lineage {σ : Type} (setting : RunSetting σ) (force : Bool) (d : Disk)
    (m : Manifest) (p : String) (file : PreparedFile)
    (h : prepare setting force d (WorkItem.ofPath m p) = .ready file) :
    file.lineage = ((m.get? p).map (·.lineage)).getD (lineageFor p) ∧
      ∀ id ∈ file.currentIds, ∃ kind name line variant hash,
        id = entityId file.lineage kind name line variant hash := by
  unfold prepare at h
  split at h
  · cases h
  · obtain ⟨found, _, rfl⟩ := prepareContent_ready h
    dsimp only
    rw [WorkItem.ofPath_path, WorkItem.ofPath_lineage]
    refine ⟨rfl, fun id hid => ?_⟩
    obtain ⟨e, he, rfl⟩ := (mem_idSet _ _).mp hid
    obtain ⟨item, _, variant, _, rfl⟩ := mem_mintEntities _ _ _ _ e he
    exact ⟨_, _, _, _, _, rfl⟩

namespace RunState

section Growing

variable {σ : Type} (setting : RunSetting σ) (home : Location) (s₀ : RunState σ) (m : Manifest)

/-- A state between the files of a run: the records are those of `m`, but for the files that were
written. -/
structure Growing (left : List String) (t : RunState σ) : Prop where
  since : Since home s₀ t
  sound : t.optimizer.Sound
  untouched : ∀ q ∈ left, t.manifest.get? q = m.get? q
  grows : m.Grows t.manifest

theorem Growing.recorded {left : List String} {t : RunState σ} (plan : RunPlan) (d : Disk)
    (file : PreparedFile)
    (hprepared : prepare setting plan.force d (WorkItem.ofPath m file.path) = .ready file)
    (hleft : file.path ∉ left) (h : Growing home s₀ m (file.path :: left) t) {w : World σ}
    (hw : t.world.Called w) :
    Growing home s₀ m left { t with
      world := w
      manifest := t.manifest.recordIndexed (recordOf plan file) w.unixTime } := by
  have htime := (prepare_faithful setting plan.force d m file.path file hprepared).2.time
  obtain ⟨hlineage, hids⟩ := prepare_lineage setting plan.force d m file.path file hprepared
  have hget (q : String) :
      (t.manifest.recordIndexed (recordOf plan file) w.unixTime).get? q =
        if file.path = q then some (recordOf plan file) else t.manifest.get? q :=
    Manifest.get?_recordIndexed _ _ _ q
  refine ⟨h.since.called hw _ (Manifest.keyed_recordIndexed _ _ _)
    fun hnow hs => hs.recordIndexed _ htime _ hnow, h.sound, fun q hq => ?_, fun q => ?_⟩
  · have hne : file.path ≠ q := fun heq => hleft (heq ▸ hq)
    rw [hget, if_neg hne]
    exact h.untouched q (List.mem_cons_of_mem _ hq)
  · rw [hget]
    split
    · rename_i hq
      subst hq
      refine .inr ⟨_, rfl, hlineage, fun id hid => ?_⟩
      exact hids id (Std.ExtTreeSet.mem_toList.mp hid)
    · exact h.grows q

theorem growing_carried (hstill : setting.env.Still) (plan : RunPlan)
    (hready : Ready setting.stateDir home s₀.world.disk) (paths : List String) :
    Carried setting plan home s₀ m paths (Growing home s₀ m) (fun _ => Growing home s₀ m)
      (fun _ _ => True) where
  same _ _ h := h.since.same
  sound _ _ h := h.sound
  fewer _ _ _ h hfewer := ⟨h.since, h.sound, fun q hq => h.untouched q (hfewer hq), h.grows⟩
  quiet left t u h hq := by
    have hm := core_manifest hq.core
    refine ⟨hq.since setting h.since, hq.optimizer h.sound, ?_, ?_⟩
    · rw [hm]
      exact h.untouched
    · rw [hm]
      exact h.grows
  take _ t pending next _ h := by
    have hsince := since_takePrepared h.since pending next
    cases next <;> exact ⟨hsince, h.sound, h.untouched, h.grows⟩
  start batch left t u h hq := by
    have hm : u.manifest = (t.begunBatch batch).manifest := core_manifest hq.core
    refine ⟨hq.since setting (h.since.called ⟨_, _, _, rfl⟩ _ id fun _ hs => hs),
      hq.optimizer h.sound, ?_, ?_⟩
    · rw [hm]
      exact h.untouched
    · rw [hm]
      exact h.grows
  fail _ path _ _ e _ h := ⟨since_addFailure h.since path e, h.sound,
    fun q hq => h.untouched q (List.mem_cons_of_mem _ hq), h.grows⟩
  write _ file vectors left t hripe _ hleft _ h := by
    obtain ⟨_, d, _, hprepared⟩ := hripe
    rw [runs_writeFile]
    apply runs_imp _ _ _ (World.updateFile_called setting.env hstill setting.store file.path
      file.previousIds file.currentIds (withVectors file.fresh vectors) file.hasRecord t.world)
    · exact fun _ w hw => h.recorded setting home s₀ m plan d file hprepared hleft hw
    · exact fun _ _ _ => trivial
  commit _ done left t u h hq := by
    have hsince := hq.since setting h.since
    apply runs_imp _ _ _ (commitBatch_committed setting hstill done u (hready.of_same hsince.same))
    · intro _ v hv
      have hm : v.manifest = t.manifest :=
        (congrArg Core.manifest hv.core : v.manifest = u.manifest).trans (core_manifest hq.core)
      refine ⟨hv.since hsince, ?_, ?_, ?_⟩
      · rw [hv.optimizer]
        exact hq.optimizer h.sound
      · rw [hm]
        exact h.untouched
      · rw [hm]
        exact h.grows
    · exact fun _ _ h => h.elim

end Growing

variable {setting : RunSetting MemoryStore} {home : Location}

def Rewritten (setting : RunSetting MemoryStore) (home : Location) (d : Disk)
    (taken : List String) (p : String) (r : FileRecord) : Prop :=
  p ∈ taken ∧ ∃ d', Same home d d' ∧ setting.Describes d' p r

/-- The files that are left of a run are recorded with the lineages that they had, or with new
ones. -/
theorem drain_grows (plan : RunPlan) {s t : RunState MemoryStore} (hstill : setting.env.Still)
    (hready : Ready setting.stateDir home s.world.disk) (ht : Since home s t)
    (hsound : t.optimizer.Sound) (left : List String) (hnodup : left.Nodup) :
    Runs (drain setting plan left.length { items := left.map (WorkItem.ofPath t.manifest) }) t
      (fun _ u => Since home s u ∧ t.manifest.Grows u.manifest ∧
        t.manifest.Renews (Rewritten setting home s.world.disk left) u.manifest)
      (fun _ _ => True) := by
  have hgrowing := growing_carried setting home t t.manifest hstill plan (hready.of_same ht.same)
    left
  -- what the records say of the files' content goes alongside their lineages
  have hcarried := hgrowing.alongside
    (fun _ _ => t.manifest.Renews (Rewritten setting home s.world.disk left))
    (fun _ _ _ _ hn _ => hn) (by
      rintro _ file vectors _ u ⟨hpath, d, hsame, hprepared⟩ _ _ _ hn
      have hdescribes := setting.prepare_describes plan d _ file hprepared
      rw [WorkItem.ofPath_path] at hdescribes
      exact runs_any _ _ _ _ (fun _ w => hn.recordIndexed _ w.unixTime
        ⟨hpath, d, ht.same.trans hsame, hdescribes⟩) fun _ _ => trivial)
  apply runs_imp _ _ _ (hcarried.drain hstill hnodup t
    ⟨⟨Since.refl ht.same.after, hsound, fun _ _ => rfl, fun _ => .inl rfl⟩, .refl _⟩)
  · rintro ending u ⟨⟨hu, hrenews⟩, _⟩
    exact ⟨ht.trans hu.since, hu.grows, hrenews⟩
  · exact fun _ _ h => h

/-- The records at the end of the batches of a run are those that deletions and renames lead to,
and those of the files that were written. -/
theorem runBatches_grows (plan : RunPlan) (changes : ChangeSet) (s : RunState MemoryStore)
    (hstill : setting.env.Still) (hstore : setting.store = MemoryStore.calls)
    (hready : Ready setting.stateDir home s.world.disk) (hsound : s.optimizer.Sound) :
    Runs (runBatches setting plan changes) s
      (fun ending t => Since home s t ∧ (ending = .finished →
        (shapeOf plan changes s setting).manifest.Grows t.manifest ∧
        (shapeOf plan changes s setting).manifest.Renews
          (Rewritten setting home s.world.disk
            (changes.added ++ changes.modified ++ (shapeOf plan changes s setting).reindex))
          t.manifest)) (fun _ _ => True) := by
  -- the records that deletions and renames lead to are those that the files begin with
  apply runBatches_rule setting plan changes (fun reindex t => Since home s t ∧
    t.optimizer.Sound ∧ reindex = (shapeOf plan changes s setting).reindex ∧
    ∀ p, t.manifest.get? p = (shapeOf plan changes s setting).manifest.get? p)
  · exact fun _ => ⟨Since.refl hready.leaf, fun h => by cases h⟩
  · intro hdeleted hrenamed
    have hshape : shapeOf plan changes s setting = .start s.manifest :=
      Shape.ofChanges_plain plan _ changes s.manifest hdeleted hrenamed
    rw [hshape]
    exact ⟨Since.refl hready.leaf, hsound, rfl, fun _ => rfl⟩
  · apply runs_imp _ _ _ (applyStructural_committed setting hstill hstore plan changes s hready)
    · rintro reindex t ⟨hreindex, u, v, hu, ⟨touched, hv⟩, hquiet⟩
      refine ⟨hquiet.since setting (hv.since hu.since), hquiet.optimizer ?_, hreindex, fun p => ?_⟩
      · rw [hv.optimizer, hu.rest.2.2]
        exact hsound
      · have hm : v.manifest = u.manifest := congrArg Core.manifest hv.core
        rw [core_manifest hquiet.core, hm]
        exact hu.manifest p
    · exact fun _ _ _ => trivial
  · rintro reindex t ⟨ht, hsound', rfl, hm⟩
    apply runs_imp _ _ _ (drain_grows plan hstill hready ht hsound' _ (sortedPaths_nodup _))
    · rintro ending u ⟨hu, hgrows, hrenews⟩
      have htaken : t.manifest.Renews (Rewritten setting home s.world.disk (changes.added ++
          changes.modified ++ (shapeOf plan changes s setting).reindex)) u.manifest :=
        hrenews.imp fun p _ hr => ⟨(mem_sortedPaths _ p).mp hr.1, hr.2⟩
      refine ⟨hu, fun _ => ⟨hgrows.alike (.of_get? hm) (.of_get? fun _ => rfl),
        htaken.alike (.of_get? hm) (.of_get? fun _ => rfl) ?_⟩⟩
      rintro p r r' heq ⟨hin, d, hsame, hd⟩
      exact ⟨hin, d, hsame, hd.alike heq⟩
    · exact fun _ _ h => h

/-- A loop over some paths leaves the entries of another file alone, if no id is recorded for two
files, be it before the loop or after it. -/
theorem Accounted.spares {setting : RunSetting MemoryStore} {plan : RunPlan} {paths : List String}
    {s t : RunState MemoryStore} {outcomes : List Prepared} {batches : List (Batch MemoryStore)}
    {pending : List PreparedFile} (h : Accounted setting plan paths s outcomes batches pending t)
    (hreached : s.optimizer.Reached setting.env.maxBatch)
    (hstore : setting.store = MemoryStore.calls) (hnodup : paths.Nodup)
    (hbefore : s.manifest.IdsApart) (hafter : t.manifest.IdsApart) {q : String} (hq : q ∉ paths)
    (hagrees : s.world.store.Agrees s.manifest q) (id : String) {x : StoredEntity}
    (hx : x.isDerivedFor q = true) :
    t.world.store.get? id = some x ↔ s.world.store.get? id = some x := by
  have hother (b : Batch MemoryStore) (hb : b ∈ batches) (file : PreparedFile)
      (hfile : file ∈ b.written setting) : file.path ≠ q :=
    fun heq => hq (heq ▸ List.mem_of_mem_take (h.written_taken hb hfile))
  rw [h.trace.entries hreached hstore h.came.own hx hother id]
  refine and_iff_left_of_imp fun hget b hb file hfile hclaims => ?_
  obtain ⟨r, hr, hid⟩ := ((MemoryStore.agrees_iff _ _ q).mp hagrees id).mp ⟨x, hget, hx⟩
  have hne := hother b hb file hfile
  have hready := h.trace.files_ready hb ((b.written_sublist setting).subset hfile)
  obtain ⟨d, path, hprepared⟩ := h.came.ready hready
  obtain ⟨hpath, hfaithful⟩ := prepare_faithful setting plan.force d s.manifest path file hprepared
  rcases hclaims with ⟨e, he, rfl⟩ | hstale
  · -- an entity of the file is in its record now
    have hrecord := h.trace.recorded hreached
      (h.came.paths.nodup (hnodup.sublist (List.take_sublist _ _))) b hb file hfile
    have hkept : t.manifest.get? q = some r := (h.records q hother).trans hr
    have hmem : e.id ∈ (recordOf plan file).entityIds :=
      Std.ExtTreeSet.mem_toList.mpr (hfaithful.fresh e he)
    exact hafter _ _ _ _ hrecord hkept hne _ hmem hid
  · -- an id that the file gives up was in its record before
    obtain ⟨hprevious, _⟩ := (VectorStore.mem_staleIds _ _ _).mp hstale
    obtain ⟨r', hr', hmem⟩ := (hfaithful.previous id).mp hprevious
    exact hbefore _ _ _ _ hr' hr hne _ hmem hid

/-- The batches of a run leave the entries of a file alone that the changes do not mention, if no id
is recorded for two files, be it when the run turns to its files or at the end. -/
theorem runBatches_spares (plan : RunPlan) (changes : ChangeSet) (s : RunState MemoryStore)
    (hstill : setting.env.Still) (hstore : setting.store = MemoryStore.calls)
    (hready : Ready setting.stateDir home s.world.disk)
    (hreached : s.optimizer.Reached setting.env.maxBatch)
    (hsynced : s.world.store.Synced s.manifest)
    (hapart : (shapeOf plan changes s setting).manifest.IdsApart) {q : String}
    (hq : q ∉ changes.mentioned) :
    Runs (runBatches setting plan changes) s
      (fun ending t => ending = .finished → t.manifest.IdsApart → ∀ id (x : StoredEntity),
        x.isDerivedFor q = true → (t.world.store.get? id = some x ↔ s.world.store.get? id = some x))
      (fun _ _ => True) := by
  rw [ChangeSet.mem_mentioned, not_or, not_or, not_or] at hq
  obtain ⟨hadded, hmodified, hdeleted, hrenamed⟩ := hq
  have houtside : q ∉ structuralPaths changes := by
    rw [Shape.mem_structuralPaths, not_or]
    exact ⟨hdeleted, hrenamed⟩
  apply runBatches_rule setting plan changes (fun reindex t =>
    (t.optimizer = s.optimizer ∧ t.world.store.Synced t.manifest) ∧
    reindex = (shapeOf plan changes s setting).reindex ∧
    (∀ p, t.manifest.get? p = (shapeOf plan changes s setting).manifest.get? p) ∧
    ∀ id (x : StoredEntity), x.isDerivedFor q = true →
      (t.world.store.get? id = some x ↔ s.world.store.get? id = some x))
  · exact fun _ h => by cases h
  · intro hnone hnone'
    have hshape : shapeOf plan changes s setting = .start s.manifest :=
      Shape.ofChanges_plain plan _ changes s.manifest hnone hnone'
    rw [hshape]
    exact ⟨⟨rfl, hsynced⟩, rfl, fun _ => rfl, fun _ _ _ => Iff.rfl⟩
  · apply runs_imp _ _ _ (runs_and _ _ _ (applyStructural_shifted setting hstore plan changes
      hsynced) (applyStructural_committed setting hstill hstore plan changes s hready)) ?_
      fun _ _ _ => trivial
    rintro reindex t ⟨hshifted, hreindex, u, v, hu, ⟨touched, hv⟩, hquiet⟩
    obtain ⟨hstored, hrecords⟩ := hu.settled hv hquiet
    refine ⟨⟨hshifted.optimizer, hshifted.synced⟩, hreindex, hrecords, fun id x hx => ?_⟩
    rw [hstored]
    exact (Shape.ofChanges_sameOutside plan _ changes).entries id x
      (StoredEntity.outside_of_derivedFor hx houtside)
  · rintro reindex t ⟨⟨hoptimizer, hagrees⟩, rfl, hrecords, hbefore⟩
    have hreached' : t.optimizer.Reached setting.env.maxBatch := hoptimizer ▸ hreached
    apply runs_imp _ _ _ (drain_batched _ t) ?_ fun _ _ _ => trivial
    rintro ending u ⟨outcomes, batches, pending, hcame, hu, _⟩ _ hafter id x hx
    have haccounted := hu.accounted hcame hreached'
    rw [← hbefore id x hx]
    refine haccounted.spares hreached' hstore (sortedPaths_nodup _)
      (hapart.alike (.of_get? fun p => (hrecords p).symm)) hafter ?_ (hagrees q) id hx
    rw [mem_sortedPaths, List.mem_append, List.mem_append, not_or, not_or]
    refine ⟨⟨hadded, hmodified⟩, fun hin => hrenamed ?_⟩
    obtain ⟨e, he, heq⟩ := Shape.ofChanges_reindex plan _ changes s.manifest q hin
    exact ⟨e, he, .inr heq⟩

end RunState

namespace RunSetting

open RunState

variable {setting : RunSetting MemoryStore} {home : Location} {filter : FileFilter}

/-- A run that is finished has left the entries of a file alone that its changes do not mention. -/
theorem execute_spares (hstill : setting.env.Still) (hstore : setting.store = MemoryStore.calls)
    (c : RunContext) (detection : Detection) (force : Bool) (w : World MemoryStore)
    (hready : Ready setting.stateDir home w.disk) (hsynced : w.store.Synced c.manifest)
    (hapart : c.manifest.IdsApart) {q : String} (hq : q ∉ detection.changes.mentioned) :
    Runs (setting.execute filter c detection force) w
      (fun report w' => report.IsFinished → report.state.manifest.IdsApart →
        ∀ id (x : StoredEntity), x.isDerivedFor q = true →
          (w'.store.get? id = some x ↔ w.store.get? id = some x))
      (fun _ _ => False) := by
  apply execute_rule setting home filter hstill c detection force w hready
  intro plan s flow t outcome u hbegun hstart _ hrun hend hfinished hafter id x hx
  have hready' := hready.of_same hbegun.same
  have hreached : s.optimizer.Reached setting.env.maxBatch := by
    rw [hstart]
    exact .start _
  have hsynced' : s.world.store.Synced s.manifest := by
    rw [hbegun.world.1, hbegun.manifest]
    exact hsynced
  obtain ⟨result, hok, hstatus⟩ := (RunReport.isFinished_noted _ _ _).mp hfinished
  cases (hok : outcome = .ok result)
  obtain rfl := conclude_finished setting plan flow t u result hend hstatus
  have hbatches := runs_ok _ _ _ (runBatches_spares plan detection.changes s hstill hstore hready'
    hreached hsynced' ((Shape.ofChanges_descends plan _ _ _).idsApart (hbegun.manifest ▸ hapart))
    hq) hrun
  -- the end of the run settles flags, and leaves the store as it is
  have hsame := (runs_ok _ _ _ (runBatches_grows plan detection.changes s hstill hstore hready'
    hbegun.sound) hrun).1.same
  obtain ⟨_, u', hu', hcompleted, _⟩ := runs_returns _
    (complete_completed setting hstill plan t (hready'.of_same hsame))
  cases hend.symm.trans hu'
  have halike : u.manifest.Alike t.manifest := by
    rw [hcompleted.manifest]
    split
    · exact .settled t.manifest plan.divergence t.now
    · exact .of_get? fun _ => rfl
  rw [hcompleted.world.1, hbatches rfl (hafter.alike halike) id x hx, hbegun.world.1]

end RunSetting

section Histories

open RunSetting RunState

variable (setting : RunSetting MemoryStore) (home : Location) (filter : FileFilter)

/-- A completed run that finds the records of `m` and leaves those of `m'`, in whatever tree. -/
structure Turn (m m' : Manifest) where
  request : RunRequest
  before : World MemoryStore
  context : RunContext
  opened : World MemoryStore
  report : RunReport MemoryStore
  after : World MemoryStore
  result : IndexResult
  ready : Ready setting.stateDir home before.disk
  apart : filter.Apart home before.disk
  clock : before.clock.Valid
  found : before.loadManifest setting.stateDir = .ok m
  begins : setting.openRun.run before = (.ok context, opened)
  runs : (setting.perform request).run before = (.ok report, after)
  outcome : report.outcome = .ok result
  completed : result.status ≠ .aborted
  left : after.loadManifest setting.stateDir = .ok m'

/-- Completed runs one after the other, from an index without records on; the tree may change in any
way between them. -/
inductive History : Manifest → Type where
  | start : History .empty
  | turn {m m' : Manifest} (past : History m) (last : Turn setting home filter m m') : History m'

variable {setting home filter} {m m' : Manifest}

namespace Turn

def shape (t : Turn setting home filter m m') : Shape :=
  setting.restructured t.opened.disk
    (setting.detection filter t.opened.disk m t.context.reference t.request).changes m

def Enters (t : Turn setting home filter m m') (p : String) : Prop :=
  t.shape.manifest.get? p = none ∧ (m'.get? p).isSome

/-- No file that enters the index is given a lineage in use. -/
def Respectful (t : Turn setting home filter m m') : Prop :=
  ∀ p, t.Enters p → ∀ q r, t.shape.manifest.get? q = some r → r.lineage ≠ lineageFor p

def detected (t : Turn setting home filter m m') : Detection :=
  setting.detection filter t.opened.disk m t.context.reference t.request

/-- A completed run is finished, and leaves the records that it ends with. -/
theorem finished (t : Turn setting home filter m m') (hstill : setting.env.Still)
    (hfilter : setting.config.filterOf setting.root = .ok filter) :
    t.context.manifest = m ∧ t.report.state.manifest = m' ∧
      setting.Performed home filter t.request t.before t.context t.opened t.report t.after
        t.result ∧
      setting.Finished home filter (filter.inspect t.opened.disk) t.context t.detected t.opened
        t.report.state := by
  obtain ⟨request, w, c, w₁, report, w', res, hready, hapart, hclock, hfound, hopen, hrun, houtcome,
    hdone, hleft⟩ := t
  have hopened := runs_ok _ _ _ (openRun_opened setting w hready) hopen
  have hm : c.manifest = m := by
    have hboth := hopened.manifest.symm.trans hfound
    exact Except.ok.inj hboth
  obtain ⟨res', hperformed⟩ := runs_ok _ _ _
    (perform_opened setting filter hstill hfilter request w w₁ c hready hapart hopen) hrun
  have hres : res' = res := by
    have hboth := hperformed.outcome.symm.trans houtcome
    exact Except.ok.inj hboth
  subst hm hres
  have hfinished := hperformed.ended.resolve_left fun h => hdone h.1
  have hm' : report.state.manifest = m' := by
    have hboth := (hperformed.loaded setting hfinished hready hclock).symm.trans hleft
    exact Except.ok.inj hboth
  exact ⟨rfl, hm', hperformed, hfinished⟩

def taken (t : Turn setting home filter m m') : List String :=
  t.detected.changes.added ++ t.detected.changes.modified ++ t.shape.reindex

theorem workable (t : Turn setting home filter m m') :
    t.detected.changes.Workable (filter.inspect t.opened.disk) :=
  detection_workable setting filter _ _ _ t.request

theorem taken_writes (t : Turn setting home filter m m') (p : String) (hp : p ∈ t.taken) :
    t.detected.changes.Writes p := by
  unfold taken at hp
  rw [List.mem_append, List.mem_append] at hp
  rcases hp with (hp | hp) | hp
  · exact .inl hp
  · exact .inr (.inl hp)
  · exact .inr (.inr (Shape.ofChanges_reindex _ _ _ _ p hp))

theorem seen (t : Turn setting home filter m m')
    (hfilter : setting.config.filterOf setting.root = .ok filter) :
    Same home t.before.disk t.opened.disk ∧
      Seen setting.root home t.opened.disk (filter.inspect t.opened.disk) := by
  have hopened := runs_ok _ _ _ (openRun_opened setting t.before t.ready) t.begins
  have hroot : filter.root = setting.root := FileFilter.ofConfig_root _ _ _ hfilter
  rw [← hroot]
  exact ⟨hopened.same, (t.apart.of_same hopened.same).seen⟩

/-- A completed run leaves the entries and the records that its batches end with. -/
theorem batches (t : Turn setting home filter m m') (hstill : setting.env.Still)
    (hfilter : setting.config.filterOf setting.root = .ok filter) (B : RunState MemoryStore → Prop)
    (hbatches : ∀ plan s, RunSetting.Begun home t.context t.detected t.request.force t.opened plan s →
      (shapeOf plan t.detected.changes s setting).Alike t.shape →
      Runs (runBatches setting plan t.detected.changes) s
        (fun ending u => Same home s.world.disk u.world.disk ∧ (ending = .finished → B u))
        fun _ _ => True) :
    ∃ u, B u ∧ u.manifest.Alike m' ∧ t.after.store = u.world.store := by
  obtain ⟨hm, hm', hperformed, _⟩ := t.finished hstill hfilter
  obtain ⟨hsame, hseen⟩ := t.seen hfilter
  have hready := t.ready.of_same hsame
  have hends := execute_batches setting home filter hstill t.context t.detected t.request.force
    t.opened hready (fun ending u => ending = .finished → B u) (fun _ _ => True) (by
      intro plan s hbegun
      refine hbatches plan s hbegun ?_
      -- the targets of renames are read as they were at the beginning
      have hread (e : String × String) (he : e ∈ t.detected.changes.renamed) :
          setting.hashOf s.world.disk e.2 = setting.hashOf t.opened.disk e.2 := by
        obtain ⟨content, modified, hall⟩ :=
          t.workable.legible hseen e.2 (.inr (.inr ⟨e, he, rfl⟩))
        unfold RunSetting.hashOf
        rw [hall _ hbegun.same, hall _ hready.same_refl]
      unfold shapeOf
      rw [Shape.ofChanges_congr plan _ _ t.detected.changes s.manifest hread, hbegun.manifest, hm]
      exact Shape.ofChanges_alike plan _ _ t.detected.changes m)
  have hrun := t.runs
  rw [perform_run setting hfilter t.request t.begins, hm] at hrun
  obtain ⟨hworld, hended⟩ := runs_ok _ _ _ hends hrun
  rcases hended t.result t.outcome with ⟨haborted, _⟩ | ⟨plan, u, hB, hcompleted, _⟩
  · exact absurd haborted t.completed
  · refine ⟨u, hB rfl, ?_, ?_⟩
    · rw [← hm', hcompleted.manifest]
      split
      · exact (Manifest.Alike.settled u.manifest plan.divergence u.now).symm
      · exact .of_get? fun _ => rfl
    · rw [← hworld]
      exact hcompleted.world.1

/-- The records that a completed run leaves are those that deletions and renames lead to, and those
of the files that were written. -/
theorem grown (t : Turn setting home filter m m') (hstill : setting.env.Still)
    (hstore : setting.store = MemoryStore.calls)
    (hfilter : setting.config.filterOf setting.root = .ok filter) :
    t.shape.manifest.Grows m' ∧ t.shape.manifest.Renews
      (fun p r => p ∈ t.taken ∧ setting.Describes t.opened.disk p r) m' := by
  obtain ⟨hsame, hseen⟩ := t.seen hfilter
  have hready := t.ready.of_same hsame
  obtain ⟨u, ⟨hgrown, hrenews⟩, halike, _⟩ := t.batches hstill hfilter
    (fun u => t.shape.manifest.Grows u.manifest ∧ t.shape.manifest.Renews
      (fun p r => p ∈ t.taken ∧ setting.Describes t.opened.disk p r) u.manifest) (by
      rintro plan s hbegun ⟨hshape, hreindex, _⟩
      apply runs_imp _ _ _ (runBatches_grows plan t.detected.changes s hstill hstore
        (hready.of_same hbegun.same) hbegun.sound)
      · rintro ending u ⟨hsince, hgrows⟩
        refine ⟨hsince.same, fun hending => ?_⟩
        obtain ⟨hgrown, hrenews⟩ := hgrows hending
        refine ⟨hgrown.alike hshape (.of_get? fun _ => rfl), ?_⟩
        apply (hrenews.imp _).alike hshape (.of_get? fun _ => rfl)
          fun _ _ _ heq h => ⟨h.1, h.2.alike heq⟩
        rintro p r ⟨htaken, d, hsame', hdescribes⟩
        rw [hreindex] at htaken
        have hlegible := t.workable.legible hseen p (t.taken_writes p htaken)
        exact ⟨htaken, hdescribes.legible hlegible (hbegun.same.trans hsame') _ hready.same_refl⟩
      · exact fun _ _ _ => trivial)
  exact ⟨hgrown.alike (.of_get? fun _ => rfl) halike,
    hrenews.alike (.of_get? fun _ => rfl) halike fun _ _ _ heq h => ⟨h.1, h.2.alike heq⟩⟩

/-- If the store is in step with the records, the run leaves the entries of every file alone that its
changes do not mention. -/
def Spares (t : Turn setting home filter m m') : Prop :=
  t.before.store.Synced m → ∀ q, q ∉ t.detected.changes.mentioned →
    ∀ id (x : StoredEntity), x.isDerivedFor q = true →
      (t.after.store.get? id = some x ↔ t.before.store.get? id = some x)

theorem spares (t : Turn setting home filter m m') (hstill : setting.env.Still)
    (hstore : setting.store = MemoryStore.calls)
    (hfilter : setting.config.filterOf setting.root = .ok filter) (hbefore : m.IdsApart)
    (hafter : m'.IdsApart) : t.Spares := by
  intro hsynced q hq id x hx
  obtain ⟨hm, hm', hperformed, _⟩ := t.finished hstill hfilter
  obtain ⟨hsame, _⟩ := t.seen hfilter
  have hstored : t.opened.store = t.before.store := hperformed.opened.rest.1
  have hrun := t.runs
  rw [perform_run setting hfilter t.request t.begins, hm] at hrun
  have hsynced' : t.opened.store.Synced t.context.manifest := by
    rw [hstored, hm]
    exact hsynced
  have hbefore' : t.context.manifest.IdsApart := by
    rw [hm]
    exact hbefore
  have hafter' : t.report.state.manifest.IdsApart := by
    rw [hm']
    exact hafter
  rw [← hstored]
  exact runs_ok _ _ _ (execute_spares hstill hstore t.context t.detected t.request.force t.opened
    (t.ready.of_same hsame) hsynced' hbefore' hq) hrun ⟨t.result, t.outcome, t.completed⟩ hafter' id
    x hx

end Turn

namespace History

/-- A property of all the manifests of a history. -/
def Always (P : Manifest → Prop) : {m : Manifest} → History setting home filter m → Prop
  | _, .start => P .empty
  | m', .turn past _ => past.Always P ∧ P m'

/-- A property of all the runs of a history. -/
def Every (P : {m m' : Manifest} → Turn setting home filter m m' → Prop) :
    {m : Manifest} → History setting home filter m → Prop
  | _, .start => True
  | _, .turn past last => past.Every P ∧ P last

/-- No run of the history gives a lineage in use to a file that enters the index. -/
def Respectful : {m : Manifest} → History setting home filter m → Prop
  | _, .start => True
  | _, .turn past last => past.Respectful ∧ last.Respectful

theorem Always.last {P : Manifest → Prop} {h : History setting home filter m} (hP : h.Always P) :
    P m := by
  cases h with
  | start => exact hP
  | turn past last => exact hP.2

/-- All ids that are ever recorded are made of the lineages of their records. -/
theorem coined (h : History setting home filter m) (hstill : setting.env.Still)
    (hstore : setting.store = MemoryStore.calls)
    (hfilter : setting.config.filterOf setting.root = .ok filter) (p : String) (r : FileRecord)
    (hr : m.get? p = some r) : r.Coined := by
  induction h generalizing p r with
  | start =>
    rw [Manifest.get?_empty] at hr
    cases hr
  | turn past last ih =>
    refine (last.grown hstill hstore hfilter).1.coined (fun q s hs => ?_) p r hr
    exact (Shape.ofChanges_descends _ _ _ _).coined ih q s hs

/-- The recorded files are told apart by their lineages and ids exactly when no run gives a lineage in
use to a file that enters the index. -/
theorem apart_iff (h : History setting home filter m) (hstill : setting.env.Still)
    (hstore : setting.store = MemoryStore.calls)
    (hfilter : setting.config.filterOf setting.root = .ok filter)
    (hfree : h.Always Manifest.CollisionFree) :
    h.Always (fun m => m.LineagesApart ∧ m.IdsApart) ↔ h.Respectful := by
  induction h with
  | start =>
    refine ⟨fun _ => trivial, fun _ => ⟨fun p q r s hr => ?_, fun p q r s hr => ?_⟩⟩ <;>
      · rw [Manifest.get?_empty] at hr
        cases hr
  | turn past last ih =>
    obtain ⟨hpast, hlast⟩ := hfree
    have hgrows := (last.grown hstill hstore hfilter).1
    have hcoined := (History.turn past last).coined hstill hstore hfilter
    -- deletions and renames leave the files told apart
    have hshape (hapart : past.Always fun m => m.LineagesApart ∧ m.IdsApart) :
        last.shape.manifest.LineagesApart :=
      (Shape.ofChanges_descends _ _ _ _).lineagesApart hapart.last.1
    constructor
    · rintro ⟨hapart, hnow, _⟩
      refine ⟨(ih hpast).mp hapart, fun p hp q r hr => ?_⟩
      exact (hgrows.lineagesApart_iff (hshape hapart) hlast.paths).mp hnow p q r hp.1 hp.2 hr
    · rintro ⟨hrespectful, hnow⟩
      have hapart := (ih hpast).mpr hrespectful
      have hlineages := (hgrows.lineagesApart_iff (hshape hapart) hlast.paths).mpr
        fun p q r hp hin hr => hnow p ⟨hp, hin⟩ q r hr
      exact ⟨hapart, hlineages, hlineages.idsApart hcoined hlast⟩

/-- While no id is recorded for two files, no run takes over the entries of another file. -/
theorem Always.spares {h : History setting home filter m} (hstill : setting.env.Still)
    (hstore : setting.store = MemoryStore.calls)
    (hfilter : setting.config.filterOf setting.root = .ok filter)
    (hapart : h.Always Manifest.IdsApart) : h.Every Turn.Spares := by
  induction h with
  | start => trivial
  | turn past last ih =>
    exact ⟨ih hapart.1, last.spares hstill hstore hfilter hapart.1.last hapart.2⟩

theorem Always.imp {P Q : Manifest → Prop} (hPQ : ∀ m, P m → Q m)
    {h : History setting home filter m} (hP : h.Always P) : h.Always Q := by
  induction h with
  | start => exact hPQ _ hP
  | turn past last ih => exact ⟨ih hP.1, hPQ _ hP.2⟩

/-- Through any history of completed runs the recorded files are told apart by their lineages and
ids, exactly when no run gives a lineage in use to a file that enters the index. Then each run leaves
the entries of the files alone that its changes do not mention, copies of them among the others. -/
theorem told_apart_iff (h : History setting home filter m) (hstill : setting.env.Still)
    (hstore : setting.store = MemoryStore.calls)
    (hfilter : setting.config.filterOf setting.root = .ok filter)
    (hfree : h.Always Manifest.CollisionFree) :
    (h.Always (fun m => m.LineagesApart ∧ m.IdsApart) ↔ h.Respectful) ∧
      (h.Respectful → h.Every Turn.Spares) := by
  have hiff := h.apart_iff hstill hstore hfilter hfree
  refine ⟨hiff, fun hrespectful => ?_⟩
  exact ((hiff.mpr hrespectful).imp fun _ hm => hm.2).spares hstill hstore hfilter

end History

end Histories

section Samples

open RunSetting RunState

/-- A run in a small root, from the state that an earlier one has left, with an extractor that
understands every file. -/
theorem sample_turn (x : Extractor) (git : Disk → Git.View)
    (hx : ∀ path content, ∃ found, x.find path content = .ok found) (request : RunRequest)
    (d : Disk) (left : Checkpoint) (m : Manifest) (st : MemoryStore) (found : ChangeSet)
    (hready : Ready "/w/.sift" sampleHome d) (hlinks : d.Linkless) (hleft : left.Storable)
    (hm : m.Storable)
    (hdetection : ∀ d', Same sampleHome d d' → ∃ source head,
      (sampleSetting x git).detection sampleFilter d' m left.lastIndexedCommit request =
        ⟨found, source, head, []⟩) :
    ∃ m' : Manifest, ∃ t : Turn (sampleSetting x git) sampleHome sampleFilter m m',
      t.before = { sampleWorld d left m with store := st } ∧ t.request = request ∧
      m'.Storable ∧ t.report.state.Clean ∧ Same sampleHome d t.opened.disk ∧
      t.detected.changes = found ∧
      t.shape = (sampleSetting x git).restructured d found m ∧
      Reworked (sampleFilter.inspect d) m m' found.Writes found.Removes
        (· ∈ found.mentioned) := by
  obtain ⟨hready', hapart, hfree⟩ := sample_open x git d left m
    { sampleWorld d left m with store := st } rfl rfl hready hlinks hleft hm
  have hsame := World.holding_same left m hready
  have hdir : (sampleSetting x git).stateDir = "/w/.sift" := sample_stateDir x git
  obtain ⟨hcheckpoint, hload⟩ :=
    World.load_holding left m { sampleWorld d left m with store := st } hready hleft hm rfl
  rw [← hdir] at hcheckpoint hload
  obtain ⟨c, w₁, report, w', res, hopen, hrun, hperformed, hfinished, hdone, hclean⟩ :=
    perform_finished (sampleSetting x git) (sample_calm _ _) (sample_still _ _) rfl
      sampleFilter_eq request { sampleWorld d left m with store := st } hready' hapart hfree rfl
  have hopened := hperformed.opened
  have hc : c.manifest = m := by
    have hboth := hopened.manifest.symm.trans hload
    exact Except.ok.inj hboth
  have hreference : c.reference = left.lastIndexedCommit := by
    obtain ⟨previous, hprevious, hcommit⟩ := hopened.reference
    rw [hcheckpoint] at hprevious
    rw [hcommit, ← Except.ok.inj hprevious]
    rfl
  have hsame₁ : Same sampleHome d w₁.disk := hsame.trans hopened.same
  have hlook : sampleFilter.inspect w₁.disk = sampleFilter.inspect d :=
    funext fun p => (sample_apart d hlinks).inspect hsame₁ p
  obtain ⟨source, head, hfound⟩ := hdetection w₁.disk hsame₁
  rw [← hreference] at hfound
  have hwork := detection_workable (sampleSetting x git) sampleFilter w₁.disk m
    c.reference request
  have hloaded := hperformed.loaded (sampleSetting x git) hfinished hready' sample_clock
  rw [hc, hfound] at hfinished hclean
  rw [hfound, hlook] at hwork
  have hmissed := hclean (sample_reliable _ _ hx) rfl
  have hrecords := hfinished.records hmissed
  rw [hlook, hc] at hrecords
  refine ⟨report.state.manifest, ⟨request, { sampleWorld d left m with store := st }, c, w₁, report,
    w', res, hready', hapart, sample_clock, hload, hopen, hrun, hperformed.outcome, hdone, hloaded⟩,
    rfl, rfl, ?_, hmissed, hsame₁, ?_, ?_, hrecords⟩
  · apply hfinished.storable
    · rw [hopened.rest.2.1]
      exact sample_clock
    · rw [hc]
      exact hm
  · unfold Turn.detected
    dsimp only
    rw [hfound]
  · unfold Turn.shape RunSetting.restructured
    dsimp only
    rw [hfound]
    apply Shape.ofChanges_congr
    -- the targets are seen, and read the same in both trees
    intro e he
    obtain ⟨hash, hlook⟩ := hwork.present e.2 (.inr (.inr ⟨e, he, rfl⟩))
    have hread : w₁.disk.readFile (Path.join (sampleSetting x git).root e.2) =
        d.readFile (Path.join (sampleSetting x git).root e.2) :=
      sample_reads hready hlinks hlook hsame₁
    unfold RunSetting.hashOf
    rw [hread]

theorem sample_supplied (x : Extractor)
    (hx : ∀ path content, ∃ found, x.find path content = .ok found) (d : Disk) (m : Manifest)
    (st : MemoryStore) (changes found : ChangeSet) (hready : Ready "/w/.sift" sampleHome d)
    (hlinks : d.Linkless) (hm : m.Storable)
    (hfound : confirm m (sampleFilter.inspect d) changes = ⟨found, []⟩) :
    ∃ m' : Manifest, ∃ t : Turn (sampleSetting x fun _ => .outside) sampleHome sampleFilter m m',
      t.before = { sampleWorld d (sampleCheckpoint "old") m with store := st } ∧
      t.request = .changeset changes ∧ m'.Storable ∧ Same sampleHome d t.opened.disk ∧
      t.detected.changes = found ∧
      t.shape = (sampleSetting x fun _ => .outside).restructured d found m ∧
      Reworked (sampleFilter.inspect d) m m' found.Writes found.Removes
        (· ∈ found.mentioned) := by
  obtain ⟨m', t, hbefore, hrequest, hstorable, _, hsame, hdetected, hshape, hrecords⟩ :=
    sample_turn x (fun _ => .outside) hx (.changeset changes) d (sampleCheckpoint "old") m st found
      hready hlinks (sampleCheckpoint_storable "old") hm (by
      intro d' hsame
      have hlook : sampleFilter.inspect d' = sampleFilter.inspect d :=
        funext fun p => (sample_apart d hlinks).inspect hsame p
      unfold RunSetting.detection
      dsimp only
      rw [hlook, hfound]
      exact ⟨_, _, rfl⟩)
  exact ⟨m', t, hbefore, hrequest, hstorable, hsame, hdetected, hshape, hrecords⟩

end Samples

/-! ### A path that is used again -/

section Reused

open RunSetting RunState

def reusedSetting : RunSetting MemoryStore :=
  sampleSetting ⟨fun _ => true, fun _ text => .ok [⟨.function, "f", ⟨1, 1⟩, none, none, text⟩]⟩
    fun _ => .outside

/-- A run there for some changes, from the state that an earlier one has left. -/
theorem reused_turn (d : Disk) (m : Manifest) (changes found : ChangeSet)
    (hready : Ready "/w/.sift" sampleHome d) (hlinks : d.Linkless) (hm : m.Storable)
    (hfound : confirm m (sampleFilter.inspect d) changes = ⟨found, []⟩) :
    ∃ m' : Manifest, ∃ t : Turn reusedSetting sampleHome sampleFilter m m',
      t.before = sampleWorld d (sampleCheckpoint "old") m ∧ t.request = .changeset changes ∧
      m'.Storable ∧ t.shape = reusedSetting.restructured d found m ∧
      Reworked (sampleFilter.inspect d) m m' found.Writes found.Removes
        (· ∈ found.mentioned) := by
  obtain ⟨m', t, hbefore, hrequest, hstorable, _, _, hshape, hrecords⟩ :=
    sample_supplied reusedSetting.extractor (fun _ _ => ⟨_, rfl⟩) d m {} changes found hready hlinks
      hm hfound
  exact ⟨m', t, hbefore, hrequest, hstorable, hshape, hrecords⟩

def reusedDisk (names : List String) : Disk := sampleDisk (names.map (·, "x"))

theorem reused_ready (names : List String)
    (h : names = ["a.py"] ∨ names = ["b.py"] ∨ names = ["a.py", "b.py"]) :
    Ready "/w/.sift" sampleHome (reusedDisk names) ∧ (reusedDisk names).Linkless := by
  rcases h with rfl | rfl | rfl <;>
    exact ⟨by apply sample_ready <;> decide, Disk.linkless_of_all _ (by decide)⟩

theorem reused_inspect (names : List String) (p : String)
    (heligible : sampleFilter.isEligible p = true)
    (hstat : (reusedDisk names).stat (Path.join sampleFilter.root p) = .ok (.file "x".toUTF8 0)) :
    sampleFilter.inspect (reusedDisk names) p = .present (Digest.contentHash "x".toUTF8) := by
  rw [FileFilter.inspect_present]
  exact ⟨heligible, "x".toUTF8, 0, hstat, by decide +kernel, by decide +kernel, rfl⟩

theorem reused_added (m : Manifest) (look : String → FileState) (name : String)
    (hash : ContentHash) (hnone : m.get? name = none) (hlook : look name = .present hash) :
    confirm m look { added := [name] } = ⟨{ added := [name] }, []⟩ := by
  have hsorted : sortedPaths [name] = [name] := sortedPaths_single _ name fun _ => List.mem_singleton
  have hsorting : (Sorting.ofCandidates m look { added := [name] }).paths = [name] := hsorted
  have hcompared : [name].map (fun path => (path, compareRecord (m.get? path) (look path))) =
      [(name, .added hash)] := by
    rw [List.map_cons, hnone, hlook]
    rfl
  have hpartner : partnerOf m [(name, hash)] [] hash = none := by
    unfold partnerOf
    split
    · rename_i hmany
      cases hmany
    · rfl
  have hpairs : pairRenames m [(name, hash)] [] = ⟨[name], [], []⟩ := by
    unfold pairRenames
    simp [hpartner]
  unfold confirm
  dsimp only
  rw [hsorting, hcompared]
  show (⟨.ofLists (pairRenames m [(name, hash)] []).added []
    (pairRenames m [(name, hash)] []).deleted
    ([] ++ (pairRenames m [(name, hash)] []).renamed), sortedPaths ([] ++ [])⟩ : Confirmed) = _
  rw [hpairs]
  unfold ChangeSet.ofLists
  rw [hsorted]
  rfl

theorem reused_renamed (m : Manifest) (look : String → FileState) (r : FileRecord)
    (hash : ContentHash) (hr : m.get? "a.py" = some r) (hsource : look "a.py" = .missing)
    (htarget : look "b.py" = .present hash) :
    confirm m look { renamed := [("a.py", "b.py")] } =
      ⟨{ renamed := [("a.py", "b.py")] }, []⟩ := by
  have hsorting : Sorting.ofCandidates m look { renamed := [("a.py", "b.py")] } =
      { renames := [("a.py", "b.py")] } := by
    show Sorting.addRename m look {} ("a.py", "b.py") = _
    unfold Sorting.addRename
    dsimp only
    rw [hr, htarget, hsource]
    rfl
  unfold confirm
  rw [hsorting]
  show (⟨.ofLists [] [] [] ([("a.py", "b.py")] ++ []), sortedPaths ([] ++ [])⟩ : Confirmed) = _
  decide

def Reuses (names : List String) (m : Manifest) : Prop :=
  ∀ p, ((m.get? p).isSome ↔ p ∈ names) ∧
    ∀ r, m.get? p = some r → r.lineage = lineageFor "a.py"

theorem reuses_empty : Reuses [] .empty := by
  intro p
  rw [Manifest.get?_empty]
  exact ⟨⟨fun h => (by cases h), fun h => absurd h List.not_mem_nil⟩, fun r hr => by cases hr⟩

/-- The first path is indexed, and has the lineage of that path. -/
theorem reused_adds {names : List String} {d : Disk} {m m' : Manifest}
    (t : Turn reusedSetting sampleHome sampleFilter m m') (hm : Reuses names m)
    (hnew : "a.py" ∉ names)
    (hshape : t.shape = reusedSetting.restructured d { added := ["a.py"] } m)
    (hrecords : Reworked (sampleFilter.inspect d) m m'
      ({ added := ["a.py"] } : ChangeSet).Writes ({ added := ["a.py"] } : ChangeSet).Removes
      (· ∈ ({ added := ["a.py"] } : ChangeSet).mentioned)) : Reuses ("a.py" :: names) m' := by
  have hgrows := (t.grown (sample_still _ _) rfl sampleFilter_eq).1
  rw [hshape] at hgrows
  have hstay : (reusedSetting.restructured d { added := ["a.py"] } m).manifest = m := rfl
  rw [hstay] at hgrows
  have hnone : m.get? "a.py" = none := by
    rw [← Option.not_isSome_iff_eq_none]
    exact fun h => hnew ((hm "a.py").1.mp h)
  intro p
  by_cases hp : p = "a.py"
  · subst hp
    obtain ⟨r, hr, _⟩ := hrecords.recorded (.inl List.mem_cons_self)
    refine ⟨⟨fun _ => List.mem_cons_self, fun _ => by rw [hr]; rfl⟩, fun r' hr' => ?_⟩
    exact hgrows.new "a.py" r' hnone hr'
  · have hsome : (m'.get? p).isSome ↔ (m.get? p).isSome := by
      rw [hrecords.isSome_rest fun hmem => hp (List.mem_singleton.mp hmem)]
    refine ⟨hsome.trans ((hm p).1.trans (by simp [hp])), fun r' hr' => ?_⟩
    obtain ⟨r, hr⟩ := Option.isSome_iff_exists.mp (hsome.mp (by rw [hr']; rfl))
    obtain ⟨r'', hr'', hlineage⟩ := hgrows.kept p r hr
    rw [hr'] at hr''
    cases hr''
    rw [hlineage]
    exact (hm p).2 r hr

/-- The file is moved, and takes the lineage of its first path along. -/
theorem reused_moves {m m' : Manifest} (t : Turn reusedSetting sampleHome sampleFilter m m')
    (hm : Reuses ["a.py"] m) {r : FileRecord} (hr : m.get? "a.py" = some r)
    (hcontent : r.contentHash = Digest.contentHash "x".toUTF8)
    (hshape : t.shape =
      reusedSetting.restructured (reusedDisk ["b.py"]) { renamed := [("a.py", "b.py")] } m)
    (hrecords : Reworked (sampleFilter.inspect (reusedDisk ["b.py"])) m m'
      ({ renamed := [("a.py", "b.py")] } : ChangeSet).Writes
      ({ renamed := [("a.py", "b.py")] } : ChangeSet).Removes
      (· ∈ ({ renamed := [("a.py", "b.py")] } : ChangeSet).mentioned)) : Reuses ["b.py"] m' := by
  have hread : reusedSetting.hashOf (reusedDisk ["b.py"]) "b.py" = some r.contentHash := by
    have hfile : (reusedDisk ["b.py"]).readFile (Path.join reusedSetting.root "b.py") =
        .ok ("x".toUTF8, 0) := by decide
    unfold RunSetting.hashOf
    rw [hfile, hcontent]
  have hmoved : (reusedSetting.restructured (reusedDisk ["b.py"])
      { renamed := [("a.py", "b.py")] } m).manifest =
      relocated m ⟨none, false, .noHistory, false⟩ "a.py" "b.py" .zero := by
    exact congrArg Shape.manifest (Shape.rename_moved _ _ (.start m) "a.py" "b.py" r hr hread)
  have hgrows := (t.grown (sample_still _ _) rfl sampleFilter_eq).1
  rw [hshape, hmoved] at hgrows
  intro p
  by_cases hp : p = "b.py"
  · -- the record is the one of the source, with its lineage
    subst hp
    obtain ⟨r', hr', _⟩ := hrecords.recorded (.inr (.inr ⟨_, List.mem_cons_self, rfl⟩))
    refine ⟨⟨fun _ => List.mem_cons_self, fun _ => by rw [hr']; rfl⟩, fun r'' hr'' => ?_⟩
    have hget := get?_relocated m ⟨none, false, .noHistory, false⟩ "a.py" "b.py" .zero r hr
      (by decide) "b.py"
    rw [if_pos rfl] at hget
    obtain ⟨r₂, hr₂, hlineage⟩ := hgrows.kept "b.py" _ hget
    rw [hr''] at hr₂
    cases hr₂
    rw [hlineage]
    exact (hm "a.py").2 r hr
  · -- no other path has a record
    have hnone : m'.get? p = none := by
      by_cases hsource : p = "a.py"
      · rw [← Manifest.hashAt_none]
        exact hrecords.dropped p (.inr ⟨_, List.mem_cons_self, hsource⟩)
      · rw [← Option.not_isSome_iff_eq_none,
          hrecords.isSome_rest (by simp [ChangeSet.mentioned, hp, hsource])]
        exact fun h => hsource (List.mem_singleton.mp ((hm p).1.mp h))
    rw [hnone]
    exact ⟨⟨fun h => (by cases h), fun h => absurd (List.mem_singleton.mp h) hp⟩,
      fun r hr => by cases hr⟩

/-- The file is indexed, moved and written again, with a run after each. -/
theorem reused_history : ∃ m₁ m₂ m₃ : Manifest,
    ∃ t₁ : Turn reusedSetting sampleHome sampleFilter .empty m₁,
    ∃ t₂ : Turn reusedSetting sampleHome sampleFilter m₁ m₂,
    ∃ t₃ : Turn reusedSetting sampleHome sampleFilter m₂ m₃,
      (t₁.before = sampleWorld (reusedDisk ["a.py"]) (sampleCheckpoint "old") .empty ∧
        t₁.request = .changeset { added := ["a.py"] } ∧ Reuses ["a.py"] m₁) ∧
      (t₂.before = sampleWorld (reusedDisk ["b.py"]) (sampleCheckpoint "old") m₁ ∧
        t₂.request = .changeset { renamed := [("a.py", "b.py")] } ∧ Reuses ["b.py"] m₂) ∧
      t₃.before = sampleWorld (reusedDisk ["a.py", "b.py"]) (sampleCheckpoint "old") m₂ ∧
        t₃.request = .changeset { added := ["a.py"] } ∧ Reuses ["a.py", "b.py"] m₃ := by
  have hlook (names : List String) (p : String) (h : (names = ["a.py"] ∧ p = "a.py") ∨
      (names = ["b.py"] ∧ p = "b.py") ∨ (names = ["a.py", "b.py"] ∧ p = "a.py")) :
      sampleFilter.inspect (reusedDisk names) p = .present (Digest.contentHash "x".toUTF8) := by
    rcases h with ⟨rfl, rfl⟩ | ⟨rfl, rfl⟩ | ⟨rfl, rfl⟩ <;>
      exact reused_inspect _ _ (by decide) (by decide)
  -- the file is indexed
  obtain ⟨hready₁, hlinks₁⟩ := reused_ready ["a.py"] (.inl rfl)
  obtain ⟨m₁, t₁, hbefore₁, hrequest₁, hstorable₁, hshape₁, hrecords₁⟩ :=
    reused_turn (reusedDisk ["a.py"]) .empty _ _ hready₁ hlinks₁ Manifest.empty_storable
      (reused_added .empty _ _ _ (Manifest.get?_empty _) (hlook _ _ (.inl ⟨rfl, rfl⟩)))
  have hreuses₁ := reused_adds t₁ reuses_empty List.not_mem_nil hshape₁ hrecords₁
  obtain ⟨r, hr, hpresent⟩ := hrecords₁.recorded (.inl List.mem_cons_self)
  rw [hlook _ _ (.inl ⟨rfl, rfl⟩)] at hpresent
  have hcontent : r.contentHash = Digest.contentHash "x".toUTF8 :=
    (FileState.present.inj hpresent).symm
  -- it is moved, and its record with it
  obtain ⟨hready₂, hlinks₂⟩ := reused_ready ["b.py"] (.inr (.inl rfl))
  have hgone : sampleFilter.inspect (reusedDisk ["b.py"]) "a.py" = .missing := by decide
  obtain ⟨m₂, t₂, hbefore₂, hrequest₂, hstorable₂, hshape₂, hrecords₂⟩ :=
    reused_turn (reusedDisk ["b.py"]) m₁ _ _ hready₂ hlinks₂ hstorable₁
      (reused_renamed m₁ _ r _ hr hgone (hlook _ _ (.inr (.inl ⟨rfl, rfl⟩))))
  have hreuses₂ := reused_moves t₂ hreuses₁ hr hcontent hshape₂ hrecords₂
  -- a file at the path of old is indexed
  obtain ⟨hready₃, hlinks₃⟩ := reused_ready ["a.py", "b.py"] (.inr (.inr rfl))
  have hnone : m₂.get? "a.py" = none := by
    rw [← Option.not_isSome_iff_eq_none]
    exact fun h => absurd ((hreuses₂ "a.py").1.mp h) (by decide)
  obtain ⟨m₃, t₃, hbefore₃, hrequest₃, _, hshape₃, hrecords₃⟩ :=
    reused_turn (reusedDisk ["a.py", "b.py"]) m₂ _ _ hready₃ hlinks₃ hstorable₂
      (reused_added m₂ _ _ _ hnone (hlook _ _ (.inr (.inr ⟨rfl, rfl⟩))))
  exact ⟨m₁, m₂, m₃, t₁, t₂, t₃, ⟨hbefore₁, hrequest₁, hreuses₁⟩,
    ⟨hbefore₂, hrequest₂, hreuses₂⟩, hbefore₃, hrequest₃,
    reused_adds t₃ hreuses₂ (by decide) hshape₃ hrecords₃⟩

/-- The file that was moved and the one at its old path have one lineage. -/
theorem reused_lineage : ∃ m₁ m₂ m₃ : Manifest,
    ∃ t₁ : Turn reusedSetting sampleHome sampleFilter .empty m₁,
    ∃ t₂ : Turn reusedSetting sampleHome sampleFilter m₁ m₂,
    ∃ t₃ : Turn reusedSetting sampleHome sampleFilter m₂ m₃,
      (t₁.before = sampleWorld (reusedDisk ["a.py"]) (sampleCheckpoint "old") .empty ∧
        t₁.request = .changeset { added := ["a.py"] }) ∧
      (t₂.before = sampleWorld (reusedDisk ["b.py"]) (sampleCheckpoint "old") m₁ ∧
        t₂.request = .changeset { renamed := [("a.py", "b.py")] }) ∧
      (t₃.before = sampleWorld (reusedDisk ["a.py", "b.py"]) (sampleCheckpoint "old") m₂ ∧
        t₃.request = .changeset { added := ["a.py"] }) ∧
      ∃ r s, m₃.get? "a.py" = some r ∧ m₃.get? "b.py" = some s ∧ r.lineage = s.lineage := by
  obtain ⟨m₁, m₂, m₃, t₁, t₂, t₃, ⟨hbefore₁, hrequest₁, _⟩, ⟨hbefore₂, hrequest₂, _⟩, hbefore₃,
    hrequest₃, hreuses⟩ := reused_history
  obtain ⟨r, hr⟩ := Option.isSome_iff_exists.mp ((hreuses "a.py").1.mpr (by decide))
  obtain ⟨s, hs⟩ := Option.isSome_iff_exists.mp ((hreuses "b.py").1.mpr (by decide))
  exact ⟨m₁, m₂, m₃, t₁, t₂, t₃, ⟨hbefore₁, hrequest₁⟩, ⟨hbefore₂, hrequest₂⟩,
    ⟨hbefore₃, hrequest₃⟩, r, s, hr, hs,
    ((hreuses "a.py").2 r hr).trans ((hreuses "b.py").2 s hs).symm⟩

/-- The function of a file. -/
def copiedEntity (path : String) : Entity :=
  (⟨.function, "f", ⟨1, 1⟩, none, none, "x"⟩ : ExtractedEntity).mint path (lineageFor path)
    .metadata

/-- Files of the same content are recorded, each with a lineage and an id of its own. -/
def Copies (names : List String) (m : Manifest) : Prop :=
  ∀ p, ((m.get? p).isSome ↔ p ∈ names) ∧ ∀ r, m.get? p = some r →
    r.lineage = lineageFor p ∧ r.entityIds = [(copiedEntity p).id]

theorem copied_different : lineageFor "a.py" ≠ lineageFor "b.py" ∧
    (copiedEntity "a.py").id ≠ (copiedEntity "b.py").id := by decide +kernel

theorem copied_apart {p q : String} (hp : p ∈ ["a.py", "b.py"]) (hq : q ∈ ["a.py", "b.py"])
    (h : lineageFor p = lineageFor q ∨ (copiedEntity p).id = (copiedEntity q).id) : p = q := by
  obtain ⟨hlineages, hids⟩ := copied_different
  simp only [List.mem_cons, List.not_mem_nil, or_false] at hp hq
  rcases hp with rfl | rfl <;> rcases hq with rfl | rfl
  · rfl
  · exact (h.elim hlineages hids).elim
  · exact (h.elim hlineages.symm hids.symm).elim
  · rfl

theorem copied_ids (name : String) : reusedSetting.idsOf name (lineageFor name) "x".toUTF8 =
    .ok [(copiedEntity name).id] := rfl

theorem copies_empty : Copies [] .empty := by
  intro p
  rw [Manifest.get?_empty]
  exact ⟨⟨fun h => (by cases h), fun h => absurd h List.not_mem_nil⟩, fun r hr => by cases hr⟩

section Copies

variable {names : List String} {m m' : Manifest}

theorem Copies.recorded (h : Copies names m) {p : String} {r : FileRecord}
    (hr : m.get? p = some r) : p ∈ names :=
  (h p).1.mp (by rw [hr]; rfl)

theorem Copies.collisionFree (h : Copies names m) (hnames : names ⊆ ["a.py", "b.py"]) :
    m.CollisionFree := by
  refine ⟨fun p q hp hq heq => ?_, fun p q r s hr hs => ?_⟩
  · exact copied_apart (hnames ((h p).1.mp hp)) (hnames ((h q).1.mp hq)) (.inl heq)
  · intro _ _ _ _ _ _ _ _ _ _ hid hid' heq
    rw [((h p).2 r hr).2, List.mem_singleton] at hid
    rw [((h q).2 s hs).2, List.mem_singleton] at hid'
    obtain rfl := copied_apart (hnames (h.recorded hr)) (hnames (h.recorded hs))
      (.inr (hid.symm.trans (heq.trans hid')))
    rw [((h p).2 r hr).1, ((h p).2 s hs).1]

/-- A copy enters the index with a lineage that is not in use. -/
theorem Copies.respectful (h : Copies names m) {name : String}
    (h' : Copies (names ++ [name]) m') (hnames : names ++ [name] ⊆ ["a.py", "b.py"])
    (t : Turn reusedSetting sampleHome sampleFilter m m') (hstay : t.shape.manifest = m) :
    t.Respectful := by
  rintro p ⟨hnone, hp⟩ q r hr hsame
  rw [hstay] at hnone hr
  have hq := hnames (List.mem_append_left _ (h.recorded hr))
  rw [((h q).2 r hr).1] at hsame
  obtain rfl := copied_apart hq (hnames ((h' p).1.mp hp)) (.inl hsame)
  rw [hr] at hnone
  cases hnone

end Copies

/-- A run over a tree with one more file of the same content, which is given as added. -/
theorem copied_turn {names : List String} {name : String} {m : Manifest} (st : MemoryStore)
    (hcase : names = [] ∧ name = "a.py" ∨ names = ["a.py"] ∧ name = "b.py") (hm : m.Storable)
    (hcopies : Copies names m) :
    ∃ m' : Manifest, ∃ t : Turn reusedSetting sampleHome sampleFilter m m',
      t.before = { sampleWorld (reusedDisk (names ++ [name])) (sampleCheckpoint "old") m with
        store := st } ∧ t.request = .changeset { added := [name] } ∧ m'.Storable ∧
      t.detected.changes = { added := [name] } ∧ t.shape.manifest = m ∧
      Copies (names ++ [name]) m' := by
  have hnew : name ∉ names := by
    rcases hcase with ⟨rfl, rfl⟩ | ⟨rfl, rfl⟩ <;> decide
  obtain ⟨hready, hlinks⟩ := reused_ready (names ++ [name]) (by
    rcases hcase with ⟨rfl, rfl⟩ | ⟨rfl, rfl⟩
    · exact .inl rfl
    · exact .inr (.inr rfl))
  have hlook : sampleFilter.inspect (reusedDisk (names ++ [name])) name =
      .present (Digest.contentHash "x".toUTF8) := by
    rcases hcase with ⟨rfl, rfl⟩ | ⟨rfl, rfl⟩ <;> exact reused_inspect _ _ (by decide) (by decide)
  have hnone : m.get? name = none := by
    rw [← Option.not_isSome_iff_eq_none]
    exact fun h => hnew ((hcopies name).1.mp h)
  obtain ⟨m', t, hbefore, hrequest, hstorable, hsame, hdetected, hshape, hrecords⟩ :=
    sample_supplied reusedSetting.extractor (fun _ _ => ⟨_, rfl⟩) (reusedDisk (names ++ [name])) m
      st _ _ hready hlinks hm (reused_added m _ name _ hnone hlook)
  obtain ⟨hgrows, hrenews⟩ := t.grown (sample_still _ _) rfl sampleFilter_eq
  have hstay : t.shape.manifest = m := by
    rw [hshape]
    rfl
  have htaken : t.taken = [name] := by
    unfold Turn.taken
    rw [hdetected, hshape]
    rfl
  rw [hstay] at hgrows hrenews
  rw [htaken] at hrenews
  have hread (content : ByteArray) (modified : Nat)
      (h : t.opened.disk.readFile (Path.join reusedSetting.root name) = .ok (content, modified)) :
      content = "x".toUTF8 := by
    have hthere : (reusedDisk (names ++ [name])).readFile (Path.join reusedSetting.root name) =
        .ok ("x".toUTF8, 0) := by
      rcases hcase with ⟨rfl, rfl⟩ | ⟨rfl, rfl⟩ <;> decide
    cases h.symm.trans ((sample_reads hready hlinks hlook hsame).trans hthere)
    rfl
  refine ⟨m', t, hbefore, hrequest, hstorable, hdetected, hstay, fun p => ?_⟩
  by_cases hp : p = name
  · -- the file is new, and has a record made from its path
    subst hp
    obtain ⟨r, hr, _⟩ := hrecords.recorded (.inl List.mem_cons_self)
    refine ⟨⟨fun _ => by simp, fun _ => by rw [hr]; rfl⟩, fun r' hr' => ?_⟩
    have hlineage := hgrows.new p r' hnone hr'
    rcases hrenews p r' hr' with hkept | ⟨_, content, modified, hfile, _, hids⟩
    · rw [hnone] at hkept
      cases hkept
    · rw [hread content modified hfile, hlineage] at hids
      exact ⟨hlineage, (Except.ok.inj ((copied_ids p).symm.trans hids)).symm⟩
  · have hsome : (m'.get? p).isSome ↔ (m.get? p).isSome := by
      rw [hrecords.isSome_rest fun hmem => hp (List.mem_singleton.mp hmem)]
    refine ⟨hsome.trans ((hcopies p).1.trans (by simp [hp])), fun r' hr' => ?_⟩
    rcases hrenews p r' hr' with hkept | ⟨hin, _⟩
    · obtain ⟨r, hr, hessence⟩ := Option.map_eq_some_iff.mp hkept
      simp only [FileRecord.essence, Prod.mk.injEq] at hessence
      obtain ⟨hlineage, hids⟩ := (hcopies p).2 r hr
      exact ⟨hessence.2.1.symm.trans hlineage, hessence.2.2.symm.trans hids⟩
    · exact absurd (List.mem_singleton.mp hin) hp

def copiedStore : MemoryStore :=
  ({} : MemoryStore).upsertOne ⟨copiedEntity "a.py", []⟩

theorem copiedEntity_filePath (path : String) : (copiedEntity path).filePath = path := rfl

theorem get?_copiedStore (id : String) : copiedStore.get? id =
    if (copiedEntity "a.py").id = id then some ⟨copiedEntity "a.py", [], .derived⟩ else none := by
  unfold copiedStore
  have hnone : ({} : MemoryStore).get? id = none := rfl
  rw [MemoryStore.get?_upsertOne, hnone]
  exact if_neg (by decide)

theorem copiedEntity_derived (vector : Embedding) :
    (⟨copiedEntity "a.py", vector, .derived⟩ : StoredEntity).isDerivedFor "a.py" = true :=
  (MemoryStore.isDerivedFor_iff _ _).mpr ⟨rfl, copiedEntity_filePath _⟩

theorem Copies.synced {m : Manifest} (h : Copies ["a.py"] m) : copiedStore.Synced m := by
  intro p
  rw [MemoryStore.agrees_iff]
  intro id
  constructor
  · rintro ⟨x, hx, hfor⟩
    rw [get?_copiedStore] at hx
    split at hx
    · rename_i hid
      cases hx
      rw [MemoryStore.isDerivedFor_iff, copiedEntity_filePath] at hfor
      obtain ⟨_, rfl⟩ := hfor
      obtain ⟨r, hr⟩ := Option.isSome_iff_exists.mp ((h "a.py").1.mpr List.mem_cons_self)
      exact ⟨r, hr, by rw [((h "a.py").2 r hr).2, hid]; exact List.mem_cons_self⟩
    · cases hx
  · rintro ⟨r, hr, hid⟩
    obtain rfl := List.mem_singleton.mp (h.recorded hr)
    rw [((h "a.py").2 r hr).2, List.mem_singleton] at hid
    exact ⟨_, by rw [get?_copiedStore, if_pos hid.symm], copiedEntity_derived _⟩

/-- A file is indexed, and then a copy of it, which has a lineage and an id of its own and leaves the
entry of the first as it is. -/
theorem copied_told_apart : ∃ m₁ m₂ : Manifest,
    ∃ t₁ : Turn reusedSetting sampleHome sampleFilter .empty m₁,
    ∃ t₂ : Turn reusedSetting sampleHome sampleFilter m₁ m₂,
      (t₁.before = sampleWorld (reusedDisk ["a.py"]) (sampleCheckpoint "old") .empty ∧
        t₁.request = .changeset { added := ["a.py"] }) ∧
      (t₂.before = { sampleWorld (reusedDisk ["a.py", "b.py"]) (sampleCheckpoint "old") m₁ with
          store := copiedStore } ∧ t₂.request = .changeset { added := ["b.py"] }) ∧
      ((History.start.turn t₁).turn t₂).Always (fun m => m.LineagesApart ∧ m.IdsApart) ∧
      (m₂.get? "a.py").isSome ∧ (m₂.get? "b.py").isSome ∧
      t₂.after.store.get? (copiedEntity "a.py").id =
        some ⟨copiedEntity "a.py", [], .derived⟩ := by
  obtain ⟨m₁, t₁, hbefore₁, hrequest₁, hstorable₁, _, hstay₁, hcopies₁⟩ :=
    copied_turn {} (.inl ⟨rfl, rfl⟩) Manifest.empty_storable copies_empty
  obtain ⟨m₂, t₂, hbefore₂, hrequest₂, _, hdetected, hstay₂, hcopies₂⟩ :=
    copied_turn copiedStore (.inr ⟨rfl, rfl⟩) hstorable₁ hcopies₁
  have hfree : ((History.start.turn t₁).turn t₂).Always Manifest.CollisionFree :=
    ⟨⟨copies_empty.collisionFree (by decide), hcopies₁.collisionFree (by decide)⟩,
      hcopies₂.collisionFree (by decide)⟩
  have hrespectful : ((History.start.turn t₁).turn t₂).Respectful :=
    ⟨⟨trivial, copies_empty.respectful hcopies₁ (by decide) t₁ hstay₁⟩,
      hcopies₁.respectful hcopies₂ (by decide) t₂ hstay₂⟩
  obtain ⟨hiff, hspares⟩ := History.told_apart_iff ((History.start.turn t₁).turn t₂)
    (sample_still _ _) rfl sampleFilter_eq hfree
  refine ⟨m₁, m₂, t₁, t₂, ⟨hbefore₁, hrequest₁⟩, ⟨hbefore₂, hrequest₂⟩, hiff.mpr hrespectful,
    (hcopies₂ "a.py").1.mpr (by decide), (hcopies₂ "b.py").1.mpr (by decide), ?_⟩
  -- the second run is told of the copy only
  have hkept : t₂.Spares := (hspares hrespectful).2
  unfold Turn.Spares at hkept
  rw [hbefore₂] at hkept
  refine (hkept hcopies₁.synced "a.py" ?_ _ _ (copiedEntity_derived _)).mpr ?_
  · rw [hdetected]
    decide
  · show copiedStore.get? _ = _
    rw [get?_copiedStore, if_pos rfl]

end Reused

end CodeIndex
