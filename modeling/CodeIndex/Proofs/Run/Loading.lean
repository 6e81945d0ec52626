import CodeIndex.Proofs.Run.Saving
import CodeIndex.Proofs.State.Files

namespace CodeIndex.World

open StateDir

variable {σ : Type} {directory : String} {home : Location}

theorem loadManifest_congr {τ : Type} (w : World σ) (w' : World τ) (h : w'.disk = w.disk) :
    w'.loadManifest directory = w.loadManifest directory := by
  unfold loadManifest load?
  rw [h]

theorem loadCheckpoint_congr {τ : Type} (w : World σ) (w' : World τ) (h : w'.disk = w.disk) :
    w'.loadCheckpoint directory = w.loadCheckpoint directory := by
  unfold loadCheckpoint load?
  rw [h]

theorem loadManifest_eq (w : World σ) (hready : Ready directory home w.disk) :
    w.loadManifest directory =
      match content home w.disk Manifest.fileName with
      | none => .ok .empty
      | some bytes => Manifest.ofFile (Path.join directory Manifest.fileName) bytes := by
  unfold loadManifest
  rw [hready.read w _ (by decide)]
  cases content home w.disk Manifest.fileName <;> rfl

theorem loadCheckpoint_eq (w : World σ) (hready : Ready directory home w.disk) :
    w.loadCheckpoint directory =
      match content home w.disk Checkpoint.fileName with
      | none => .ok none
      | some bytes =>
        (Checkpoint.ofFile (Path.join directory Checkpoint.fileName) bytes).map some := by
  unfold loadCheckpoint
  rw [hready.read w _ (by decide)]
  cases content home w.disk Checkpoint.fileName with
  | none => rfl
  | some bytes =>
    dsimp only [bind, Except.bind]
    cases Checkpoint.ofFile (Path.join directory Checkpoint.fileName) bytes <;> rfl

theorem loadManifest_storable (w : World σ) (hready : Ready directory home w.disk) (m : Manifest)
    (h : w.loadManifest directory = .ok m) : m.Storable := by
  rw [loadManifest_eq w hready] at h
  split at h
  · injection h with h
    exact h ▸ Manifest.empty_storable
  · exact Manifest.ofFile_storable _ _ m h

theorem loadCheckpoint_storable (w : World σ) (hready : Ready directory home w.disk)
    (c : Checkpoint) (h : w.loadCheckpoint directory = .ok (some c)) : c.Storable := by
  rw [loadCheckpoint_eq w hready] at h
  split at h
  · cases h
  · rename_i bytes _
    cases hfile : Checkpoint.ofFile (Path.join directory Checkpoint.fileName) bytes with
    | error e =>
      rw [hfile] at h
      cases h
    | ok c' =>
      rw [hfile] at h
      cases h
      exact Checkpoint.ofFile_storable _ _ c hfile

theorem loadManifest_saved (w : World σ) (hready : Ready directory home w.disk) (m : Manifest)
    (hm : m.Storable)
    (hcontent : content home w.disk Manifest.fileName = some m.fileText.toUTF8) :
    w.loadManifest directory = .ok m := by
  rw [loadManifest_eq w hready, hcontent]
  exact Manifest.ofFile_fileText m _ hm

theorem loadCheckpoint_saved (w : World σ) (hready : Ready directory home w.disk) (c : Checkpoint)
    (hc : c.Storable)
    (hcontent : content home w.disk Checkpoint.fileName = some c.fileText.toUTF8) :
    w.loadCheckpoint directory = .ok (some c) := by
  rw [loadCheckpoint_eq w hready, hcontent]
  dsimp only
  rw [Checkpoint.ofFile_fileText c _ hc]
  rfl

/-- The files of a state directory are loaded from its contents. -/
theorem load_congr {w w' : World σ} (hready : Ready directory home w.disk)
    (hready' : Ready directory home w'.disk)
    (hkept : ∀ name ∈ kept, content home w'.disk name = content home w.disk name) :
    w'.loadCheckpoint directory = w.loadCheckpoint directory ∧
      w'.loadManifest directory = w.loadManifest directory := by
  rw [loadCheckpoint_eq w hready, loadManifest_eq w hready, loadCheckpoint_eq w' hready',
    loadManifest_eq w' hready', hkept _ (by decide), hkept _ (by decide)]
  exact ⟨rfl, rfl⟩

def holding (home : Location) (d : Disk) (c : Checkpoint) (m : Manifest) : Disk :=
  (d.put (home ++ [Checkpoint.fileName]) (.file c.fileText.toUTF8 0)).put
    (home ++ [Manifest.fileName]) (.file m.fileText.toUTF8 0)

variable {d : Disk} (c : Checkpoint) (m : Manifest)

theorem holding_same (hready : Ready directory home d) : Same home d (holding home d c m) :=
  (Disk.put_sameBut hready.leaf _ (mem_places home _ (by decide)) _ _).trans
    (Disk.put_sameBut (Disk.put_sameBut hready.leaf _ (mem_places home _ (by decide)) _ _).after _
      (mem_places home _ (by decide)) _ _)

theorem load_holding (w : World σ) (hready : Ready directory home d) (hc : c.Storable)
    (hm : m.Storable) (hdisk : w.disk = holding home d c m) :
    w.loadCheckpoint directory = .ok (some c) ∧ w.loadManifest directory = .ok m := by
  have hready' : Ready directory home w.disk := hdisk ▸ hready.of_same (holding_same c m hready)
  refine ⟨loadCheckpoint_saved w hready' c hc ?_, loadManifest_saved w hready' m hm ?_⟩
  · rw [hdisk, holding, put_content, if_neg (by decide), put_content, if_pos rfl]
  · rw [hdisk, holding, put_content, if_pos rfl]

end CodeIndex.World
