import CodeIndex.Run.State

namespace CodeIndex.RunState

variable {σ : Type}

structure Restructured where
  stats : WriteStats := {}
  touched : List String := []
  reindex : List String := []
  settled : Nat := 0

def forget (setting : RunSetting σ) (path : String) : RunM (RunState σ) WriteStats := do
  let stats ← inStore ((World.reach setting.env setting.store).deleteFile path)
  modify fun s => { s with manifest := s.manifest.removeFile path s.now }
  return stats

def relocate (setting : RunSetting σ) (plan : RunPlan) (source target : String) :
    RunM (RunState σ) WriteStats := do
  let targetHadRecord := ((← get).manifest.get? target).isSome
  let stats ← inStore
    ((World.reach setting.env setting.store).renameFile source target targetHadRecord)
  modify fun s =>
    let cleared := if targetHadRecord then s.manifest.removeFile target s.now else s.manifest
    let moved := cleared.renameFile source target plan.head s.now
    { s with manifest := moved.setDiverged target (plan.isDiverged target) }
  return stats

def applyDeletions (setting : RunSetting σ) :
    Restructured → List String → RunM (RunState σ) Restructured
  | found, [] => return found
  | found, path :: paths => do
    let stats ← forget setting path
    applyDeletions setting { found with
      stats := found.stats.merge stats
      touched := found.touched ++ [path]
      settled := found.settled + 1 } paths

def applyRename (setting : RunSetting σ) (plan : RunPlan) (found : Restructured)
    (source target : String) : RunM (RunState σ) Restructured := do
  let s ← get
  match s.manifest.get? source, s.world.disk.readFile (Path.join setting.root target) with
  | none, _ => return { found with reindex := found.reindex ++ [target] }
  | some _, .error _ =>
    set s.addUnreadable
    return found
  | some r, .ok (content, _) =>
    if Digest.contentHash content = r.contentHash then
      let stats ← relocate setting plan source target
      return { found with
        stats := found.stats.merge stats
        touched := found.touched ++ [source, target]
        settled := found.settled + 1 }
    else
      let stats ← forget setting source
      return { found with
        stats := found.stats.merge stats
        touched := found.touched ++ [source]
        reindex := found.reindex ++ [target] }

def applyRenames (setting : RunSetting σ) (plan : RunPlan) :
    Restructured → List (String × String) → RunM (RunState σ) Restructured
  | found, [] => return found
  | found, (source, target) :: renames => do
    let found ← applyRename setting plan found source target
    applyRenames setting plan found renames

/-- Applies deletions and renames as one batch, and says which paths are to be indexed anew. -/
def applyStructural (setting : RunSetting σ) (plan : RunPlan) (changes : ChangeSet) :
    RunM (RunState σ) (List String) := do
  let paths := changes.deleted ++ changes.renamed.flatMap fun (a, b) => [a, b]
  modify fun s => { s with world := s.world.mark (.batchBegun paths) }
  let found ← applyDeletions setting {} changes.deleted
  let found ← applyRenames setting plan found changes.renamed
  commitBatch setting found.touched
  modify fun s =>
    let s := s.addStats found.stats
    { s with
      result := { s.result with filesProcessed := s.result.filesProcessed + found.settled }
      progress := s.progress.settled found.settled }
  return found.reindex

end CodeIndex.RunState
