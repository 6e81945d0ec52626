import CodeIndex.Proofs.Run.Accounting
import CodeIndex.Proofs.Run.Calm
import CodeIndex.Proofs.Run.Filing

/-!
Commits that are torn. A commit saves the manifest and then the checkpoint, so that it passes a
moment at which the manifest has the batch and the checkpoint does not. Whatever happens then, the
run has passed that moment, and may have stopped there.
-/

namespace CodeIndex

open StateDir

namespace World

variable {σ : Type} (env : Surroundings)

end World

namespace RunState

variable {σ : Type} (setting : RunSetting σ) (home : Location)

def Passed (d : Disk) (manifest checkpoint : String) (w : World σ) : Prop :=
  ∃ m ∈ w.moments, Same home d m.disk ∧
    content home m.disk Manifest.fileName = some manifest.toUTF8 ∧
    content home m.disk Checkpoint.fileName = some checkpoint.toUTF8

variable {home} {d : Disk} {manifest checkpoint : String}

theorem Passed.later {w w' : World σ} (h : Passed home d manifest checkpoint w)
    (hw : w.moments <:+ w'.moments) : Passed home d manifest checkpoint w' := by
  obtain ⟨m, hm, hfacts⟩ := h
  exact ⟨m, hw.subset hm, hfacts⟩

section Deletion

variable (setting : RunSetting MemoryStore)

end Deletion

end RunState

namespace RunSetting

variable {setting : RunSetting MemoryStore} {home : Location} {filter : FileFilter}

end RunSetting

end CodeIndex
