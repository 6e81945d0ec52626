import CodeIndex.Run.Embed
import CodeIndex.Run.Prepare

/-!
Writing of a batch: its new entities are embedded together, then each file is written to the store
and recorded. When the embedding is given up, the files that needed it fail and the others are
written all the same.
-/

namespace CodeIndex.RunState

variable {σ : Type}

def withVectors (entities : List Entity) (vectors : List Embedding) : List EmbeddedEntity :=
  (entities.zip vectors).map fun (entity, vector) => ⟨entity, vector⟩

def recordOf (plan : RunPlan) (file : PreparedFile) : FileRecord where
  path := file.path
  contentHash := file.hash
  lastSeenCommit := plan.head
  modificationTime := file.modificationTime
  lineage := file.lineage
  entityIds := file.currentIds.toList
  diverged := plan.isDiverged file.path

def writeFile (setting : RunSetting σ) (plan : RunPlan) (file : PreparedFile)
    (vectors : List Embedding) : RunM (RunState σ) WriteStats := do
  let store := World.reach setting.env setting.store
  let stats ← inStore (store.updateFile file.path file.previousIds file.currentIds
    (withVectors file.fresh vectors) file.hasRecord)
  modify fun s => { s with manifest := s.manifest.recordIndexed (recordOf plan file) s.now }
  return stats

structure Written where
  done : List String := []
  stats : WriteStats := {}
  entities : Nat := 0

/-- Writes files in turn; each takes the vectors of its new entities off the front. With a failure,
files with new entities fail. -/
def writeFiles (setting : RunSetting σ) (plan : RunPlan) (failure : Option IndexError) :
    Written → List Embedding → List PreparedFile → RunM (RunState σ) Written
  | written, _, [] => return written
  | written, vectors, file :: files => do
    match failure, file.fresh with
    | some e, _ :: _ =>
      modify (·.addFailure file.path e)
      writeFiles setting plan failure written vectors files
    | _, _ =>
      let stats ← writeFile setting plan file vectors
      writeFiles setting plan failure
        { done := written.done ++ [file.path]
          stats := written.stats.merge stats
          entities := written.entities + file.currentIds.size }
        (vectors.drop file.fresh.length) files

def textsOf (files : List PreparedFile) : List String :=
  files.flatMap fun file => file.fresh.map (·.text)

def writeBatch (setting : RunSetting σ) (plan : RunPlan) (files : List PreparedFile) :
    RunM (RunState σ) Unit := do
  modify fun s => { s with world := s.world.mark (.batchBegun (files.map (·.path))) }
  let texts := textsOf files
  let (vectors, failure) ←
    if texts.isEmpty then pure ([], none)
    else ExceptT.mk fun s =>
      match (embedAll setting texts).run s with
      | (.ok vectors, s) => (.ok (vectors, none), s)
      | (.error e, s) => (.ok ([], some e), s)
  let written ← writeFiles setting plan failure {} vectors files
  modify fun s => { s with result := { s.result with
    filesProcessed := s.result.filesProcessed + written.done.length } }
  commitBatch setting written.done
  modify fun s =>
    let s := s.addStats written.stats
    { s with progress := s.progress.batchDone files.length written.entities (.ofMillis 1) }

end CodeIndex.RunState
