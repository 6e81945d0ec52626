import CodeIndex.Proofs.Run.Batched
import CodeIndex.Proofs.Run.Performed
import CodeIndex.Proofs.Run.Relocation

/-!
What the batches of a run leave as it was: the records of the files that are not written, and their
entries but for those under ids that a file which is written claims for itself.
-/

namespace CodeIndex

/-- The update of a file writes an entry with this id, or drops the one that is there. -/
def PreparedFile.Claims (file : PreparedFile) (id : String) : Prop :=
  (∃ e ∈ file.fresh, e.id = id) ∨ id ∈ VectorStore.staleIds file.previousIds file.currentIds

namespace StoreEdit

variable {x : StoredEntity} {p : String}

/-- An entry of another path is written over where an entity has its id. -/
theorem get?_write_other {entities : List EmbeddedEntity} {path : String}
    (hpath : ∀ e ∈ entities, e.entity.filePath = path) (hx : x.isDerivedFor p = true)
    (hne : path ≠ p) (s : MemoryStore) (id : String) :
    ((write entities).apply s).get? id = some x ↔
      s.get? id = some x ∧ ∀ e ∈ entities, e.entity.id ≠ id := by
  obtain ⟨horigin, hfile⟩ := (MemoryStore.isDerivedFor_iff x p).mp hx
  simp only [get?_apply, onEntry]
  cases hwritten : written entities id with
  | none =>
    have hnone := (MemoryStore.written_none entities id).mp hwritten
    have hkept : (if (s.get? id).any (·.origin == .curated) = true then s.get? id
        else none.or (s.get? id)) = s.get? id := by
      split <;> rfl
    rw [hkept]
    exact ⟨fun h => ⟨h, hnone⟩, fun h => h.1⟩
  | some y =>
    obtain ⟨e, he, hid, rfl⟩ := MemoryStore.written_some entities id y hwritten
    constructor
    · intro h
      split at h
      · -- a curated entry is no entry of a file
        rename_i hcurated
        rw [h, Option.any_some, horigin] at hcurated
        cases hcurated
      · -- what is written is of the other path
        cases h
        exact absurd ((hpath e he).symm.trans hfile) hne
    · exact fun h => absurd hid (h.2 e he)

theorem get?_drop_derived (ids : List String) (hx : x.isDerivedFor p = true) (s : MemoryStore)
    (id : String) :
    ((drop ids).apply s).get? id = some x ↔ s.get? id = some x ∧ id ∉ ids := by
  obtain ⟨horigin, _⟩ := (MemoryStore.isDerivedFor_iff x p).mp hx
  rw [get?_apply]
  simp only [onEntry, Bool.and_eq_true, List.contains_iff_mem]
  constructor
  · intro h
    split at h
    · cases h
    · rename_i hkept
      refine ⟨h, fun hmem => hkept ⟨hmem, ?_⟩⟩
      rw [h, Option.any_some, horigin]
      rfl
  · rintro ⟨hget, hmem⟩
    rw [if_neg fun h => hmem h.1, hget]

end StoreEdit

namespace MemoryStore

/-- The update of a file keeps the entries of other paths, but for those under the ids that it
claims. -/
theorem get?_updated (s : MemoryStore) (file : PreparedFile) (vectors : List Embedding)
    (hlength : file.fresh.length ≤ vectors.length)
    (hown : ∀ e ∈ file.fresh, e.filePath = file.path) {x : StoredEntity} {p : String}
    (hx : x.isDerivedFor p = true) (hne : file.path ≠ p) (id : String) :
    (s.edited (World.updateEdits file.path file.previousIds file.currentIds
        (RunState.withVectors file.fresh vectors) file.hasRecord)).get? id = some x ↔
      s.get? id = some x ∧ ¬ file.Claims id := by
  have hpath : ∀ e ∈ RunState.withVectors file.fresh vectors, e.entity.filePath = file.path :=
    fun e he => hown e.entity (withVectors_entity file.fresh vectors e he)
  have hids := withVectors_mem file.fresh vectors hlength id
  have hclear (st : MemoryStore) :
      (st.edited (if file.hasRecord then [] else [.clear file.path])).get? id = some x ↔
        st.get? id = some x := by
    have hother : x.Outside [file.path] :=
      StoredEntity.outside_of_derivedFor hx (by simpa using hne.symm)
    split
    · exact Iff.rfl
    · exact (StoreEdit.clear file.path).get?_outside (by simp [StoreEdit.Over]) hother st id
  have hdrop (st : MemoryStore) :
      (st.edited (if (VectorStore.staleIds file.previousIds file.currentIds).isEmpty then []
        else [.drop (VectorStore.staleIds file.previousIds file.currentIds)])).get? id = some x ↔
        st.get? id = some x ∧ id ∉ VectorStore.staleIds file.previousIds file.currentIds := by
    rw [edited_drop]
    exact StoreEdit.get?_drop_derived _ hx st id
  rw [World.updateEdits, edited_append]
  -- the write stands between what is cleared and what is dropped
  refine (hdrop _).trans ?_
  rw [StoreEdit.get?_write_other hpath hx hne, hclear, and_assoc]
  unfold PreparedFile.Claims
  rw [← hids]
  simp

end MemoryStore

namespace RunState

section Recorded

variable {σ : Type} {setting : RunSetting σ} {plan : RunPlan}

/-- A batch enters the records of the files that it writes. -/
theorem writeBatch_recorded (files : List PreparedFile) (s : RunState σ)
    (hreached : s.optimizer.Reached setting.env.maxBatch)
    (hnodup : (files.map (·.path)).Nodup) :
    Runs (writeBatch setting plan files) s
      (fun _ t => ∀ file ∈ Batch.written setting ⟨files, s⟩,
        t.manifest.get? file.path = some (recordOf plan file))
      fun _ _ => True := by
  apply runs_imp _ _ _ (writeBatch_written setting plan (P := fun written _ m =>
    (written.map (·.path)).Nodup → ∀ file ∈ written,
      m.get? file.path = some (recordOf plan file)) files s hreached ?_ ?_)
  · rintro _ t ⟨_, _, hwritten⟩
    exact hwritten (((Batch.written_sublist setting ⟨files, s⟩).map _).nodup hnodup)
  · exact fun _ _ h => h
  · exact fun _ _ h => absurd h List.not_mem_nil
  · intro written file vectors w m _ _ hm
    refine runs_imp _ _ _ (runs_self _) (fun _ w' _ hdistinct f hf => ?_) fun _ _ _ => trivial
    rw [List.map_append, List.nodup_append] at hdistinct
    obtain ⟨hearlier, _, hothers⟩ := hdistinct
    rw [Manifest.get?_recordIndexed]
    rcases List.mem_append.mp hf with hf | hf
    · have hne : file.path ≠ f.path :=
        (hothers _ (List.mem_map_of_mem hf) _ (by simp)).symm
      rw [show (recordOf plan file).path = file.path from rfl, if_neg hne]
      exact hm hearlier f hf
    · rw [List.mem_singleton.mp hf]
      exact if_pos rfl

/-- A file that is written has its record from then on, as no other file has its path. -/
theorem Batched.recorded {s₀ t : RunState σ} {outcomes : List Prepared} {batches : List (Batch σ)}
    {pending : List PreparedFile} (h : Batched setting plan s₀ outcomes batches pending t)
    (hreached : s₀.optimizer.Reached setting.env.maxBatch)
    (hnodup : ((outcomes.filterMap Prepared.file?).map (·.path)).Nodup) :
    ∀ b ∈ batches, ∀ file ∈ b.written setting,
      t.manifest.get? file.path = some (recordOf plan file) := by
  induction h with
  | begin => exact fun _ hb => absurd hb List.not_mem_nil
  | @take outcomes _ pending s next _ _ ih =>
    rw [(takePrepared_rest s pending next).2.1]
    apply ih
    rw [List.filterMap_append, List.map_append] at hnodup
    exact (List.nodup_append.mp hnodup).1
  | @write outcomes batches pending s t h _ hran ih =>
    have hdistinct : ((batches.flatMap (·.files) ++ pending).map (·.path)).Nodup := by
      rw [h.files]
      exact hnodup
    rw [List.map_append, List.nodup_append] at hdistinct
    obtain ⟨_, hpending, hothers⟩ := hdistinct
    intro b hb file hfile
    rcases List.mem_append.mp hb with hb | hb
    · -- the last batch writes none of the earlier files
      have hin : file ∈ batches.flatMap (·.files) :=
        List.mem_flatMap.mpr ⟨b, hb, (b.written_sublist setting).subset hfile⟩
      have hkept := (runs_ok _ _ _ (writeBatch_records setting plan pending s
        (h.reached hreached)) hran).2.2 file.path fun f hf =>
          (hothers _ (List.mem_map_of_mem hin) _ (List.mem_map_of_mem
            ((Batch.written_sublist setting ⟨pending, s⟩).subset hf))).symm
      rw [hkept]
      exact ih hnodup b hb file hfile
    · rw [List.mem_singleton.mp hb] at hfile
      exact runs_ok _ _ _ (writeBatch_recorded pending s (h.reached hreached) hpending) hran file
        hfile

end Recorded

variable {setting : RunSetting MemoryStore} {plan : RunPlan}

/-- A batch keeps the entries of other files, but for those under the ids that its files claim. -/
theorem writeBatch_entries (hstore : setting.store = MemoryStore.calls)
    (files : List PreparedFile) (hown : ∀ file ∈ files, ∀ e ∈ file.fresh, e.filePath = file.path)
    (s : RunState MemoryStore) (hreached : s.optimizer.Reached setting.env.maxBatch)
    {x : StoredEntity} {p : String} (hx : x.isDerivedFor p = true) (id : String) :
    Runs (writeBatch setting plan files) s
      (fun _ t => (∀ file ∈ Batch.written setting ⟨files, s⟩, file.path ≠ p) →
        (t.world.store.get? id = some x ↔ s.world.store.get? id = some x ∧
          ∀ file ∈ Batch.written setting ⟨files, s⟩, ¬ file.Claims id))
      fun _ _ => True := by
  apply runs_imp _ _ _ (writeBatch_written setting plan (P := fun written st _ =>
    (∀ file ∈ written, file.path ≠ p) → (st.get? id = some x ↔
      s.world.store.get? id = some x ∧ ∀ file ∈ written, ¬ file.Claims id)) files s hreached ?_ ?_)
  · exact fun _ _ h => h.2.2
  · exact fun _ _ h => h
  · exact fun _ => ⟨fun h => ⟨h, fun _ h => absurd h List.not_mem_nil⟩, fun h => h.1⟩
  · intro written file vectors w m hfile hvectors hbefore
    rw [hstore]
    apply runs_imp _ _ _ (FileEdit.reach_performs setting.env (.update file.path file.previousIds
      file.currentIds (withVectors file.fresh vectors) file.hasRecord) w) ?_ fun _ _ h => h
    rintro _ w' ⟨_, hw⟩ hp
    have hne : file.path ≠ p := hp file (List.mem_append_right _ List.mem_cons_self)
    have hupdated :=
      w.store.get?_updated file vectors hvectors (hown file hfile) hx hne id
    have hearlier := hbefore fun f hf => hp f (List.mem_append_left _ hf)
    -- the entries that were there before, less what this file claims
    rw [hw, FileEdit.edits, hupdated, hearlier]
    simp [or_imp, forall_and, and_assoc]

/-- The entries of a file that no batch has written are as they were, but for those under the ids
that the files which are written claim. -/
theorem Batched.entries {s₀ t : RunState MemoryStore} {outcomes : List Prepared}
    {batches : List (Batch MemoryStore)} {pending : List PreparedFile}
    (h : Batched setting plan s₀ outcomes batches pending t)
    (hreached : s₀.optimizer.Reached setting.env.maxBatch)
    (hstore : setting.store = MemoryStore.calls)
    (hown : ∀ file ∈ outcomes.filterMap Prepared.file?, ∀ e ∈ file.fresh, e.filePath = file.path)
    {x : StoredEntity} {p : String} (hx : x.isDerivedFor p = true)
    (hp : ∀ b ∈ batches, ∀ file ∈ b.written setting, file.path ≠ p) (id : String) :
    t.world.store.get? id = some x ↔ s₀.world.store.get? id = some x ∧
      ∀ b ∈ batches, ∀ file ∈ b.written setting, ¬ file.Claims id := by
  induction h with
  | begin => exact ⟨fun h => ⟨h, fun _ h => absurd h List.not_mem_nil⟩, fun h => h.1⟩
  | @take outcomes _ pending s next _ _ ih =>
    rw [(takePrepared_rest s pending next).1]
    refine ih (fun file hfile => hown file ?_) hp
    rw [List.filterMap_append]
    exact List.mem_append_left _ hfile
  | @write outcomes batches pending s t h _ hran ih =>
    have hpending : ∀ file ∈ pending, ∀ e ∈ file.fresh, e.filePath = file.path :=
      fun file hfile => hown file (h.pending_ready hfile)
    have hbatch := runs_ok _ _ _ (writeBatch_entries hstore pending hpending s
      (h.reached hreached) hx id) hran
    have hlast := hbatch (hp _ (List.mem_append_right _ List.mem_cons_self))
    rw [hlast, ih hown fun b hb => hp b (List.mem_append_left _ hb)]
    simp [or_imp, forall_and, and_assoc]

theorem Came.own {σ : Type} {setting : RunSetting σ} {m : Manifest} {paths : List String}
    {outcomes : List Prepared} (h : Came setting plan m paths outcomes) :
    ∀ file ∈ outcomes.filterMap Prepared.file?, ∀ e ∈ file.fresh, e.filePath = file.path := by
  intro file hfile
  obtain ⟨d, path, hprepared⟩ := h.ready hfile
  exact (prepare_faithful setting plan.force d m path file hprepared).2.path

/-- What a loop over some paths has done by the time it has taken so many outcomes and written so
many batches. -/
structure Accounted {σ : Type} (setting : RunSetting σ) (plan : RunPlan) (paths : List String)
    (s : RunState σ) (outcomes : List Prepared) (batches : List (Batch σ))
    (pending : List PreparedFile) (t : RunState σ) : Prop where
  came : Came setting plan s.manifest (paths.take outcomes.length) outcomes
  trace : Batched setting plan s outcomes batches pending t
  files : batches.flatMap (·.files) ++ pending = outcomes.filterMap Prepared.file?
  sizes : ∀ b ∈ batches, b.files ≠ [] ∧ Roomy setting b.files b.state.optimizer.currentSize
  room : Roomy setting pending t.optimizer.currentSize
  settled : t.result.settled + pending.length = s.result.settled + outcomes.length
  records : ∀ p, (∀ b ∈ batches, ∀ file ∈ b.written setting, file.path ≠ p) →
    t.manifest.get? p = s.manifest.get? p

theorem Batched.accounted {σ : Type} {setting : RunSetting σ} {paths : List String}
    {s t : RunState σ} {outcomes : List Prepared} {batches : List (Batch σ)}
    {pending : List PreparedFile} (h : Batched setting plan s outcomes batches pending t)
    (hcame : Came setting plan s.manifest (paths.take outcomes.length) outcomes)
    (hreached : s.optimizer.Reached setting.env.maxBatch) :
    Accounted setting plan paths s outcomes batches pending t where
  came := hcame
  trace := h
  files := h.files
  sizes := (h.sizes hreached).1
  room := (h.sizes hreached).2
  settled := h.settled hreached
  records := h.records hreached

theorem Accounted.written_taken {σ : Type} {setting : RunSetting σ} {paths : List String}
    {s t : RunState σ} {outcomes : List Prepared} {batches : List (Batch σ)}
    {pending : List PreparedFile}
    (h : Accounted setting plan paths s outcomes batches pending t) {b : Batch σ} (hb : b ∈ batches)
    {file : PreparedFile} (hfile : file ∈ b.written setting) :
    file.path ∈ paths.take outcomes.length := by
  apply h.came.paths.subset
  rw [← h.files]
  have hall := List.mem_flatMap.mpr ⟨b, hb, (b.written_sublist setting).subset hfile⟩
  exact List.mem_map_of_mem (List.mem_append_left pending hall)

section Cut

/-- Runs that write every file in a batch of its own, with an extractor that finds one function in
one of the files. They are cancelled at their second request. -/
def cutSetting : RunSetting MemoryStore :=
  let base := sampleSetting ⟨fun path => path == "a.py", fun _ text =>
    .ok [⟨.function, "f", ⟨1, 1⟩, none, none, text⟩]⟩ fun _ => .outside
  { base with
    config := { filesPerBatch := 1 }
    env := { base.env with cancelsAt := fun n => n == 2 } }

end Cut

end RunState

end CodeIndex
