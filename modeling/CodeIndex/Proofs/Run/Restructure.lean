import CodeIndex.Proofs.Run.Edits
import CodeIndex.Proofs.Run.Since

namespace CodeIndex

open StateDir

namespace Manifest

variable {m m' : Manifest} (h : ∀ p, m.get? p = m'.get? p)

include h

theorem get?_removeFile_congr (path : String) (now now' : Duration) (p : String) :
    (m.removeFile path now).get? p = (m'.removeFile path now').get? p := by
  rw [get?_removeFile, get?_removeFile, h]

theorem get?_renameFile_congr (source target : String) (commit : Option String)
    (now now' : Duration) (p : String) :
    (m.renameFile source target commit now).get? p =
      (m'.renameFile source target commit now').get? p := by
  cases hr : m.get? source with
  | none =>
    unfold renameFile
    rw [hr, (h source).symm.trans hr]
    exact h p
  | some r =>
    rw [get?_renameFile m source target commit now r hr,
      get?_renameFile m' source target commit now' r ((h source).symm.trans hr), h]

theorem get?_setDiverged_congr (path : String) (value : Bool) (p : String) :
    (m.setDiverged path value).get? p = (m'.setDiverged path value).get? p := by
  rw [get?_setDiverged, get?_setDiverged, h]

theorem get?_relocated_congr (plan : RunPlan) (source target : String) (now now' : Duration)
    (p : String) :
    (RunState.relocated m plan source target now).get? p =
      (RunState.relocated m' plan source target now').get? p := by
  unfold RunState.relocated
  apply get?_setDiverged_congr
  apply get?_renameFile_congr
  intro q
  rw [h target]
  split
  · exact get?_removeFile_congr h target now now' q
  · exact h q

end Manifest

structure Shape where
  manifest : Manifest
  reindex : List String := []
  edits : List StoreEdit := []
  unread : Nat := 0

namespace Shape

def forget (s : Shape) (path : String) : Shape :=
  { s with
    manifest := s.manifest.removeFile path .zero
    edits := s.edits ++ [.clear path] }

def rename (plan : RunPlan) (hashOf : String → Option ContentHash) (s : Shape)
    (ends : String × String) : Shape :=
  match s.manifest.get? ends.1, hashOf ends.2 with
  | none, _ => { s with reindex := s.reindex ++ [ends.2] }
  | some _, none => { s with unread := s.unread + 1 }
  | some r, some hash =>
    if hash = r.contentHash then
      { s with
        manifest := RunState.relocated s.manifest plan ends.1 ends.2 .zero
        edits := s.edits ++ World.moveEdits ends.1 ends.2 (s.manifest.get? ends.2).isSome }
    else { s.forget ends.1 with reindex := s.reindex ++ [ends.2] }

def start (m : Manifest) : Shape := { manifest := m }

def ofChanges (plan : RunPlan) (hashOf : String → Option ContentHash) (changes : ChangeSet)
    (m : Manifest) : Shape :=
  changes.renamed.foldl (rename plan hashOf) (changes.deleted.foldl forget (start m))

variable (plan : RunPlan) (hashOf : String → Option ContentHash)

theorem ofChanges_plain (changes : ChangeSet) (m : Manifest) (hdeleted : changes.deleted = [])
    (hrenamed : changes.renamed = []) : ofChanges plan hashOf changes m = start m := by
  unfold ofChanges
  rw [hdeleted, hrenamed]
  rfl

theorem rename_edits (s : Shape) (ends : String × String) :
    ∃ more, (s.rename plan hashOf ends).edits = s.edits ++ more := by
  unfold rename
  split
  · exact ⟨[], (List.append_nil _).symm⟩
  · exact ⟨[], (List.append_nil _).symm⟩
  · split
    · exact ⟨_, rfl⟩
    · exact ⟨_, rfl⟩

theorem renames_edits (renames : List (String × String)) (s : Shape) :
    ∃ more, (renames.foldl (rename plan hashOf) s).edits = s.edits ++ more := by
  induction renames generalizing s with
  | nil => exact ⟨[], (List.append_nil _).symm⟩
  | cons ends rest ih =>
    obtain ⟨front, hfront⟩ := rename_edits plan hashOf s ends
    obtain ⟨back, hback⟩ := ih (s.rename plan hashOf ends)
    refine ⟨front ++ back, ?_⟩
    rw [List.foldl_cons, hback, hfront, List.append_assoc]

theorem deletions_edits (paths : List String) (s : Shape) :
    ∃ more, (paths.foldl forget s).edits = s.edits ++ more := by
  induction paths generalizing s with
  | nil => exact ⟨[], (List.append_nil _).symm⟩
  | cons path rest ih =>
    obtain ⟨back, hback⟩ := ih (s.forget path)
    refine ⟨[.clear path] ++ back, ?_⟩
    rw [List.foldl_cons, hback, forget, List.append_assoc]

theorem ofChanges_renaming {changes : ChangeSet} {done rest : List (String × String)}
    (h : changes.renamed = done ++ rest) (m : Manifest) :
    ∃ more, (ofChanges plan hashOf changes m).edits =
      (done.foldl (rename plan hashOf) (changes.deleted.foldl forget (start m))).edits ++ more := by
  unfold ofChanges
  rw [h, List.foldl_append]
  exact renames_edits plan hashOf rest _

/-- What is left to be deleted adds to the edits, and so do the renames after it. -/
theorem ofChanges_deleting {changes : ChangeSet} {done rest : List String}
    (h : changes.deleted = done ++ rest) (m : Manifest) :
    ∃ more, (ofChanges plan hashOf changes m).edits =
      (done.foldl forget (start m)).edits ++ more := by
  obtain ⟨renamed, hrenamed⟩ := ofChanges_renaming plan hashOf
    (show changes.renamed = [] ++ changes.renamed from rfl) m
  obtain ⟨deleted, hdeleted⟩ := deletions_edits rest (done.foldl forget (start m))
  refine ⟨deleted ++ renamed, ?_⟩
  rw [hrenamed, List.foldl_nil, h, List.foldl_append, hdeleted, List.append_assoc]

/-- Each edit clears a path that is deleted or an end of a rename, or moves the source of a rename to
its target. -/
theorem mem_ofChanges_edits {changes : ChangeSet} {m : Manifest} {edit : StoreEdit}
    (h : edit ∈ (ofChanges plan hashOf changes m).edits) :
    (∃ p ∈ changes.deleted, edit = .clear p) ∨
      ∃ e ∈ changes.renamed, edit = .clear e.1 ∨ edit = .clear e.2 ∨ edit = .move e.1 e.2 := by
  have hdeletions (paths : List String) (s : Shape) (h : edit ∈ (paths.foldl forget s).edits) :
      edit ∈ s.edits ∨ ∃ p ∈ paths, edit = .clear p := by
    induction paths generalizing s with
    | nil => exact .inl h
    | cons path rest ih =>
      rcases ih _ h with h | ⟨p, hp, rfl⟩
      · rcases List.mem_append.mp h with h | h
        · exact .inl h
        · exact .inr ⟨path, List.mem_cons_self, List.mem_singleton.mp h⟩
      · exact .inr ⟨p, List.mem_cons_of_mem _ hp, rfl⟩
  have hrename (s : Shape) (e : String × String) (h : edit ∈ (s.rename plan hashOf e).edits) :
      edit ∈ s.edits ∨ edit = .clear e.1 ∨ edit = .clear e.2 ∨ edit = .move e.1 e.2 := by
    unfold rename at h
    split at h
    · exact .inl h
    · exact .inl h
    · split at h
      · rcases List.mem_append.mp h with h | h
        · exact .inl h
        · unfold World.moveEdits at h
          split at h
          · rcases List.mem_cons.mp h with h | h
            · exact .inr (.inr (.inl h))
            · exact .inr (.inr (.inr (List.mem_singleton.mp h)))
          · exact .inr (.inr (.inr (List.mem_singleton.mp h)))
      · exact (List.mem_append.mp h).imp id fun h => .inl (List.mem_singleton.mp h)
  have hrenames (renames : List (String × String)) (s : Shape)
      (h : edit ∈ (renames.foldl (rename plan hashOf) s).edits) : edit ∈ s.edits ∨
        ∃ e ∈ renames, edit = .clear e.1 ∨ edit = .clear e.2 ∨ edit = .move e.1 e.2 := by
    induction renames generalizing s with
    | nil => exact .inl h
    | cons e rest ih =>
      rcases ih _ h with h | ⟨e', he', h⟩
      · exact (hrename s e h).imp id fun h => ⟨e, List.mem_cons_self, h⟩
      · exact .inr ⟨e', List.mem_cons_of_mem _ he', h⟩
  rcases hrenames _ _ h with h | h
  · rcases hdeletions _ _ h with h | h
    · exact absurd h List.not_mem_nil
    · exact .inl h
  · exact .inr h

theorem deletions_reindex (paths : List String) (s : Shape) :
    (paths.foldl forget s).reindex = s.reindex := by
  induction paths generalizing s with
  | nil => rfl
  | cons path rest ih => exact ih (s.forget path)

end Shape

/-- The hash of what is read at a path of a root. -/
def RunSetting.hashOf {σ : Type} (setting : RunSetting σ) (d : Disk) (p : String) :
    Option ContentHash :=
  match d.readFile (Path.join setting.root p) with
  | .ok (content, _) => some (Digest.contentHash content)
  | .error _ => none

namespace RunState

variable (setting : RunSetting MemoryStore) {home : Location}

structure Shaped (home : Location) (s : RunState MemoryStore) (w : World MemoryStore)
    (shape : Shape) (t : RunState MemoryStore) : Prop where
  since : Since home s t
  world : t.world = w.performed shape.edits
  free : World.Free setting.env w shape.edits
  manifest : ∀ p, t.manifest.get? p = shape.manifest.get? p
  missed : t.core.missed = s.core.missed + shape.unread
  errors : t.result.errors = s.result.errors
  rest : t.checkpoint = s.checkpoint ∧ t.batchIndex = s.batchIndex ∧ t.optimizer = s.optimizer

def StoppedAt (home : Location) (s : RunState MemoryStore) (w : World MemoryStore)
    (edits : List StoreEdit) (e : IndexError) (t : RunState MemoryStore) : Prop :=
  ∃ cause, e = .storeWrite cause ∧ World.Stopped setting.env w edits cause t.world ∧
    Since home s t ∧ t.checkpoint = s.checkpoint

end RunState

theorem World.performed_called (w : World MemoryStore) (edits : List StoreEdit) :
    w.Called (w.performed edits) := by
  induction edits generalizing w with
  | nil => exact .refl w
  | cons edit rest ih => exact World.Called.trans ⟨_, _, _, rfl⟩ (ih (w.edited edit))

theorem World.Stopped.append {env : Surroundings} {w w' : World MemoryStore} {cause : StoreError}
    {xs ys : List StoreEdit} (more : List StoreEdit) (hfree : World.Free env w xs)
    (h : World.Stopped env (w.performed xs) ys cause w') :
    World.Stopped env w (xs ++ ys ++ more) cause w' := by
  obtain ⟨done, edit, rest, rfl, hdone, hfail, rfl⟩ := h
  refine ⟨xs ++ done, edit, rest ++ more, ?_, (World.free_append xs done w).mpr ⟨hfree, hdone⟩,
    ?_, ?_⟩
  · simp only [List.append_assoc, List.cons_append]
  · rw [World.performed_append]
    exact hfail
  · rw [World.performed_append]

theorem World.Stopped.called {env : Surroundings} {w w' : World MemoryStore} {cause : StoreError}
    {edits : List StoreEdit} (h : World.Stopped env w edits cause w') : w.Called w' := by
  obtain ⟨done, edit, rest, _, _, _, rfl⟩ := h
  exact (World.performed_called w done).trans ⟨_, _, _, rfl⟩

namespace RunState

variable (setting : RunSetting MemoryStore) {home : Location} {s t : RunState MemoryStore}
  {w : World MemoryStore} {shape : Shape}

/-- A step that makes some edits and changes the manifest leads from one shape to the next. -/
theorem Shaped.step {α : Type} (ht : Shaped setting home s w shape t)
    (x : StoreM (World MemoryStore) α) (edits : List StoreEdit)
    (hx : World.Makes setting.env x t.world edits) (total : List StoreEdit)
    (htotal : ∃ more, total = shape.edits ++ edits ++ more) (shape' : Shape)
    (hedits : shape'.edits = shape.edits ++ edits) (hunread : shape'.unread = shape.unread)
    (change : Duration → Manifest)
    (hchange : ∀ now p, (change now).get? p = shape'.manifest.get? p)
    (hkeyed : ∀ now, t.manifest.Keyed → (change now).Keyed)
    (hstorable : ∀ now : Duration, now.Storable → t.manifest.Storable → (change now).Storable) :
    Runs x t.world
      (fun _ w' => Shaped setting home s w shape'
        { t with
          world := w'
          manifest := change w'.unixTime })
      (fun e w' => StoppedAt setting home s w total (.storeWrite e) { t with world := w' }) := by
  apply runs_imp _ _ _ hx
  · rintro _ w' ⟨rfl, hfree⟩
    refine ⟨ht.since.called (World.performed_called _ _) _ (hkeyed _) (hstorable _), ?_, ?_,
      hchange _, ?_, ht.errors, ht.rest⟩
    · rw [hedits, World.performed_append, ← ht.world]
    · rw [hedits, World.free_append, ← ht.world]
      exact ⟨ht.free, hfree⟩
    · rw [hunread]
      exact ht.missed
  · rintro e w' hstopped
    obtain ⟨more, rfl⟩ := htotal
    refine ⟨e, rfl, (ht.world ▸ hstopped).append more ht.free, ?_, ht.rest.1⟩
    exact ht.since.called hstopped.called _ id fun _ hs => hs

theorem forget_shaped (hstill : setting.env.Still) (hstore : setting.store = MemoryStore.calls)
    (ht : Shaped setting home s w shape t) (path : String) (total : List StoreEdit)
    (htotal : ∃ more, total = (shape.forget path).edits ++ more) :
    Runs (RunState.forget setting path) t
      (fun _ u => Shaped setting home s w (shape.forget path) u)
      (StoppedAt setting home s w total) := by
  rw [runs_forget, hstore]
  exact ht.step setting _ [.clear path] (World.makes_deleteFile hstill path) total htotal
    (shape.forget path) rfl rfl (t.manifest.removeFile path)
    (fun now p => Manifest.get?_removeFile_congr ht.manifest path now .zero p)
    (fun _ => Manifest.keyed_removeFile _ _ _) fun _ hnow hs => hs.removeFile _ _ hnow

theorem applyRename_shaped (hstill : setting.env.Still)
    (hstore : setting.store = MemoryStore.calls) (plan : RunPlan) (found : Restructured)
    (ends : String × String) (ht : Shaped setting home s w shape t)
    (hreindex : found.reindex = shape.reindex) (total : List StoreEdit)
    (htotal : ∃ more, total =
      (shape.rename plan (setting.hashOf w.disk) ends).edits ++ more) :
    Runs (applyRename setting plan found ends.1 ends.2) t
      (fun r u => Shaped setting home s w (shape.rename plan (setting.hashOf w.disk) ends) u ∧
        r.reindex = (shape.rename plan (setting.hashOf w.disk) ends).reindex)
      (StoppedAt setting home s w total) := by
  obtain ⟨source, target⟩ := ends
  -- the edits of a run leave the disk alone, so that the target is read as at the start
  have hdisk : t.world.disk = w.disk := by
    obtain ⟨_, _, _, heq⟩ := World.performed_called w shape.edits
    rw [ht.world, heq]
  have hsource := ht.manifest source
  unfold Shape.rename at *
  dsimp only at *
  have hrule := applyRename_rule setting plan (fun _ reindex u =>
      Shaped setting home s w (shape.rename plan (setting.hashOf w.disk) (source, target)) u ∧
        reindex = (shape.rename plan (setting.hashOf w.disk) (source, target)).reindex)
    (StoppedAt setting home s w total) found source target t
  unfold Shape.rename RunSetting.hashOf at hrule
  dsimp only at hrule
  unfold RunSetting.hashOf at htotal ⊢
  apply hrule
  · intro hnone
    rw [← hsource, hnone]
    dsimp only
    exact ⟨⟨ht.since, ht.world, ht.free, ht.manifest, ht.missed, ht.errors, ht.rest⟩,
      by rw [hreindex]⟩
  · intro hsome e hread
    obtain ⟨r, hr⟩ := Option.isSome_iff_exists.mp hsome
    rw [hdisk] at hread
    rw [← hsource, hr, hread]
    dsimp only
    refine ⟨⟨since_addUnreadable ht.since, ht.world, ht.free, ht.manifest, ?_, ht.errors,
      ht.rest⟩, hreindex⟩
    rw [core_addUnreadable]
    show t.core.missed + 1 = _
    rw [ht.missed]
    rfl
  · intro r content modified hr hread hhash
    rw [hdisk] at hread
    rw [← hsource, hr, hread] at htotal ⊢
    dsimp only at htotal ⊢
    rw [if_pos hhash] at htotal ⊢
    rw [runs_relocate, hstore, ht.manifest target]
    apply runs_imp _ _ _ (ht.step setting _ _ (World.makes_renameFile hstill source target _) total
      htotal { shape with
        manifest := relocated shape.manifest plan source target .zero
        edits := shape.edits ++
          World.moveEdits source target (shape.manifest.get? target).isSome }
      rfl rfl (relocated t.manifest plan source target)
      (fun now p => Manifest.get?_relocated_congr ht.manifest plan source target now .zero p)
      (fun _ => relocated_keyed _ _ _ _ _) fun _ hnow hs => relocated_storable _ _ _ _ _ hs hnow)
    · exact fun _ _ hu => ⟨hu, hreindex⟩
    · exact fun _ _ hu => hu
  · intro r content modified hr hread hhash
    rw [hdisk] at hread
    rw [← hsource, hr, hread] at htotal ⊢
    dsimp only at htotal ⊢
    rw [if_neg hhash] at htotal ⊢
    apply runs_imp _ _ _ (forget_shaped setting hstill hstore ht source total htotal)
    · intro _ u hu
      exact ⟨⟨hu.since, hu.world, hu.free, hu.manifest, hu.missed, hu.errors, hu.rest⟩,
        by rw [hreindex]⟩
    · exact fun _ _ hu => hu

/-- Deletions and renames lead to their shape, which is committed, unless the store stops them.
`K` is what the commit comes to. -/
theorem applyStructural_shaped (hstill : setting.env.Still)
    (hstore : setting.store = MemoryStore.calls) (plan : RunPlan) (changes : ChangeSet)
    (s : RunState MemoryStore) (hready : Ready setting.stateDir home s.world.disk)
    (K : RunState MemoryStore → RunState MemoryStore → Prop)
    (hcommit : ∀ u touched, Shaped setting home s
        (s.begunBatch (structuralPaths changes)).world
        (Shape.ofChanges plan (setting.hashOf s.world.disk) changes s.manifest) u →
      Runs (commitBatch setting touched) u (fun _ v => K u v) (fun _ _ => False)) :
    let begun := s.begunBatch (structuralPaths changes)
    let shape := Shape.ofChanges plan (setting.hashOf s.world.disk) changes s.manifest
    Runs (applyStructural setting plan changes) s
      (fun reindex t => reindex = shape.reindex ∧ ∃ u v,
        Shaped setting home s begun.world shape u ∧ K u v ∧ Quiet setting.env v t)
      (StoppedAt setting home s begun.world shape.edits) := by
  intro begun shape
  have hbegun : Shaped setting home s begun.world (.start s.manifest) begun :=
    ⟨(Since.refl hready.leaf).called ⟨_, _, _, rfl⟩ _ id fun _ hs => hs, rfl, trivial,
      fun _ => rfl, rfl, rfl, rfl, rfl, rfl⟩
  let hashOf := setting.hashOf s.world.disk
  -- at any time the state has the shape of what was done so far, and what is left goes on from it
  apply applyStructural_rule setting plan changes
    (fun _ rest t => ∃ done, changes.deleted = done ++ rest ∧
      Shaped setting home s begun.world (done.foldl Shape.forget (.start s.manifest)) t)
    (fun _ reindex rest t => ∃ done, changes.renamed = done ++ rest ∧
      Shaped setting home s begun.world (done.foldl (Shape.rename plan hashOf)
        (changes.deleted.foldl Shape.forget (.start s.manifest))) t ∧
      reindex = (done.foldl (Shape.rename plan hashOf)
        (changes.deleted.foldl Shape.forget (.start s.manifest))).reindex)
  · exact ⟨[], rfl, hbegun⟩
  · rintro touched path rest t ⟨done, hsplit, ht⟩
    have hsplit : changes.deleted = done ++ [path] ++ rest := by
      rw [hsplit, List.append_assoc, List.singleton_append]
    have hnext : (done ++ [path]).foldl Shape.forget (.start s.manifest) =
        (done.foldl Shape.forget (.start s.manifest)).forget path := List.foldl_concat ..
    -- the edits so far begin those of the whole shape, at which the store may stop the run
    have hmore := Shape.ofChanges_deleting plan hashOf hsplit s.manifest
    rw [hnext] at hmore
    apply runs_imp _ _ _ (forget_shaped setting hstill hstore ht path shape.edits hmore)
    · exact fun _ u hu => ⟨done ++ [path], hsplit, hnext ▸ hu⟩
    · exact fun _ _ hu => hu
  · rintro touched t ⟨done, hsplit, ht⟩
    rw [List.append_nil] at hsplit
    exact ⟨[], rfl, hsplit ▸ ht, (Shape.deletions_reindex changes.deleted (.start s.manifest)).symm⟩
  · rintro found source target rest t ⟨done, hsplit, ht, hreindex⟩
    have hsplit : changes.renamed = done ++ [(source, target)] ++ rest := by
      rw [hsplit, List.append_assoc, List.singleton_append]
    have hnext : (done ++ [(source, target)]).foldl (Shape.rename plan hashOf)
          (changes.deleted.foldl Shape.forget (.start s.manifest)) =
        (done.foldl (Shape.rename plan hashOf)
          (changes.deleted.foldl Shape.forget (.start s.manifest))).rename plan hashOf
          (source, target) := List.foldl_concat ..
    have hmore := Shape.ofChanges_renaming plan hashOf hsplit s.manifest
    rw [hnext] at hmore
    apply runs_imp _ _ _ (applyRename_shaped setting hstill hstore plan found (source, target) ht
      hreindex shape.edits hmore)
    · rintro r u ⟨hu, hr⟩
      exact ⟨_, hsplit, hnext ▸ hu, hnext ▸ hr⟩
    · exact fun _ _ hu => hu
  · rintro touched reindex t ⟨done, hsplit, ht, hreindex⟩
    rw [List.append_nil] at hsplit
    rw [← hsplit] at ht hreindex
    apply runs_imp _ _ _ (hcommit t touched ht)
    · exact fun _ v hv => ⟨hreindex, t, v, ht, hv, .refl _ _⟩
    · exact fun _ _ h => h.elim
  · rintro reindex t u ⟨hreindex, x, v, hx, hv, hquiet⟩ hcounted
    exact ⟨hreindex, x, v, hx, hv, hquiet.trans (hcounted.quiet setting.env)⟩

/-- The shape of deletions and renames is committed, whichever paths they touch. -/
theorem applyStructural_committed (hstill : setting.env.Still)
    (hstore : setting.store = MemoryStore.calls) (plan : RunPlan) (changes : ChangeSet)
    (s : RunState MemoryStore) (hready : Ready setting.stateDir home s.world.disk) :
    let begun := s.begunBatch (structuralPaths changes)
    let shape := Shape.ofChanges plan (setting.hashOf s.world.disk) changes s.manifest
    Runs (applyStructural setting plan changes) s
      (fun reindex t => reindex = shape.reindex ∧ ∃ u v,
        Shaped setting home s begun.world shape u ∧ (∃ touched, Committed home touched u v) ∧
          Quiet setting.env v t)
      (StoppedAt setting home s begun.world shape.edits) := by
  apply applyStructural_shaped setting hstill hstore plan changes s hready
    (fun u v => ∃ touched, Committed home touched u v)
  intro u touched hu
  apply runs_imp _ _ _ (commitBatch_committed setting hstill touched u
    (hready.of_same hu.since.same))
  · exact fun _ v hv => ⟨touched, hv⟩
  · exact fun _ _ h => h

end RunState

end CodeIndex
