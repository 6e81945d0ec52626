import CodeIndex.Proofs.Run.Agreement
import CodeIndex.Proofs.Run.Calm

namespace CodeIndex

open StateDir

namespace RunSetting

variable {σ : Type} (setting : RunSetting σ)

/-- The ids that are minted, under a lineage, from what the extractor reports for some content of a
path. -/
def idsOf (path lineage : String) (content : ByteArray) : Except ExtractError (List String) :=
  (setting.extractor.find path content).map fun found =>
    (Std.ExtTreeSet.ofList ((mintEntities path lineage found setting.config.variants).map (·.id)) :
      Std.ExtTreeSet String).toList

/-- A record is right for a path of a tree: it has the hash of what stands there, and the ids of
what the extractor reports for it. -/
def Describes (d : Disk) (p : String) (r : FileRecord) : Prop :=
  ∃ content modified, d.readFile (Path.join setting.root p) = .ok (content, modified) ∧
    r.contentHash = Digest.contentHash content ∧
    setting.idsOf p r.lineage content = .ok r.entityIds

variable {setting}

theorem Describes.alike {d : Disk} {p : String} {r r' : FileRecord} (h : setting.Describes d p r)
    (heq : r.essence = r'.essence) : setting.Describes d p r' := by
  obtain ⟨content, modified, hread, hhash, hids⟩ := h
  simp only [FileRecord.essence, Prod.mk.injEq] at heq
  obtain ⟨hhash', hlineage, hids'⟩ := heq
  exact ⟨content, modified, hread, hhash' ▸ hhash, hlineage ▸ hids' ▸ hids⟩

/-- A file that can be read at any time of a run is described as it was at the beginning. -/
theorem Describes.legible {home : Location} {d d' : Disk} {p : String} {r : FileRecord}
    (h : setting.Describes d' p r) (hlegible : Legible setting home d p)
    (hsame : Same home d d') (d'' : Disk) (hsame' : Same home d d'') :
    setting.Describes d'' p r := by
  obtain ⟨content, modified, hread, hdescribes⟩ := h
  obtain ⟨content', modified', hall⟩ := hlegible
  rw [hall d' hsame] at hread
  cases hread
  exact ⟨content, modified, hall d'' hsame', hdescribes⟩

variable (setting)

/-- A file that is ready is going to have a record that describes it. -/
theorem prepare_describes (plan : RunPlan) (d : Disk) (item : WorkItem) (file : PreparedFile)
    (h : prepare setting plan.force d item = .ready file) :
    setting.Describes d item.path (RunState.recordOf plan file) := by
  unfold prepare at h
  split at h
  · cases h
  · rename_i content modified hread
    obtain ⟨found, hfound, rfl⟩ := prepareContent_ready h
    refine ⟨content, modified, hread, rfl, ?_⟩
    unfold idsOf
    rw [hfound]
    rfl

end RunSetting

namespace Manifest

variable {W : String → FileRecord → Prop} {m m' : Manifest}

def Renews (W : String → FileRecord → Prop) (m m' : Manifest) : Prop :=
  ∀ p r, m'.get? p = some r → (m.get? p).map FileRecord.essence = some r.essence ∨ W p r

theorem Renews.refl (m : Manifest) : m.Renews W m := by
  intro p r hr
  rw [hr]
  exact .inl rfl

theorem Renews.recordIndexed (h : m.Renews W m') (r : FileRecord) (now : Duration)
    (hr : W r.path r) : m.Renews W (m'.recordIndexed r now) := by
  intro p r' hr'
  rw [get?_recordIndexed] at hr'
  split at hr'
  · rename_i hp
    cases hr'
    exact .inr (hp ▸ hr)
  · exact h p r' hr'

theorem Renews.imp {W' : String → FileRecord → Prop} (h : m.Renews W m')
    (hW : ∀ p r, W p r → W' p r) : m.Renews W' m' :=
  fun p r hr => (h p r hr).imp_right (hW p r)

theorem Renews.alike (h : m.Renews W m') {n n' : Manifest} (hm : m.Alike n) (hm' : m'.Alike n')
    (hW : ∀ p r r', r.essence = r'.essence → W p r → W p r') : n.Renews W n' := by
  intro p r' hr'
  have heq := hm' p
  rw [hr', Option.map_some] at heq
  obtain ⟨r, hr, hessence⟩ := Option.map_eq_some_iff.mp heq
  rcases h p r hr with hsame | hnew
  · rw [← hm p, hsame, hessence]
    exact .inl rfl
  · exact .inr (hW p r r' hessence hnew)

end Manifest

namespace Shape

variable (plan : RunPlan) (hashOf : String → Option ContentHash)

/-- What holds of the records at first, and is kept by a removal and by a move to a path of the same
content, holds of the records that deletions and renames lead to. -/
theorem ofChanges_rule (N : Manifest → Prop) (changes : ChangeSet) (m : Manifest) (hm : N m)
    (hremove : ∀ m path, N m → N (m.removeFile path .zero))
    (hmove : ∀ m source target r, m.get? source = some r → hashOf target = some r.contentHash →
      N m → N (RunState.relocated m plan source target .zero)) :
    N (ofChanges plan hashOf changes m).manifest := by
  have hrename (s : Shape) (ends : String × String) (hs : N s.manifest) :
      N (s.rename plan hashOf ends).manifest := by
    unfold rename
    split
    · exact hs
    · exact hs
    · rename_i r hash hr hhash
      split
      · rename_i heq
        exact hmove _ _ _ r hr (heq ▸ hhash) hs
      · exact hremove _ _ hs
  have hdeletions (paths : List String) (s : Shape) (hs : N s.manifest) :
      N (paths.foldl forget s).manifest := by
    induction paths generalizing s with
    | nil => exact hs
    | cons path rest ih => exact ih _ (hremove _ path hs)
  have hrenames (renames : List (String × String)) (s : Shape) (hs : N s.manifest) :
      N (renames.foldl (rename plan hashOf) s).manifest := by
    induction renames generalizing s with
    | nil => exact hs
    | cons ends rest ih => exact ih _ (hrename s ends hs)
  exact hrenames _ _ (hdeletions _ (start m) hm)

/-- The paths that are left to be indexed anew are targets of renames. -/
theorem ofChanges_reindex (changes : ChangeSet) (m : Manifest) (p : String)
    (hp : p ∈ (ofChanges plan hashOf changes m).reindex) : ∃ e ∈ changes.renamed, p = e.2 := by
  have hdeletions (paths : List String) (s : Shape) :
      (paths.foldl forget s).reindex = s.reindex := by
    induction paths generalizing s with
    | nil => rfl
    | cons path rest ih => exact ih _
  have hrenames (renames : List (String × String)) (s : Shape)
      (h : p ∈ (renames.foldl (rename plan hashOf) s).reindex) :
      p ∈ s.reindex ∨ ∃ e ∈ renames, p = e.2 := by
    induction renames generalizing s with
    | nil => exact .inl h
    | cons ends rest ih =>
      rcases ih _ h with hmine | ⟨e, he, rfl⟩
      · have hone : p ∈ s.reindex ∨ p = ends.2 := by
          unfold rename forget at hmine
          split at hmine
          · simpa using hmine
          · exact .inl hmine
          · split at hmine
            · exact .inl hmine
            · simpa using hmine
        exact hone.imp_right fun heq => ⟨ends, List.mem_cons_self, heq⟩
      · exact .inr ⟨e, List.mem_cons_of_mem _ he, rfl⟩
  rcases hrenames _ _ hp with h | h
  · rw [hdeletions] at h
    exact absurd h List.not_mem_nil
  · exact h

end Shape

end CodeIndex
