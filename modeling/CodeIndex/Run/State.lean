import CodeIndex.Batch.Optimizer
import CodeIndex.Batch.Retry
import CodeIndex.Change.Detect
import CodeIndex.Extraction.Extractor
import CodeIndex.Run.Progress
import CodeIndex.Run.Result
import CodeIndex.Run.StateFiles
import CodeIndex.Store.Writer

namespace CodeIndex

structure RunConfig where
  stateDir : String := ".sift"
  scan : ScanConfig := {}
  workers : Nat := 2
  filesPerBatch : Nat := 16
  variants : List ChunkVariant := [.metadata]
  batch : BatchConfig := {}
  retry : RetryPolicy := {}
  maxAge : Option Duration := some (.ofSecs 86400)
deriving Inhabited

def RunConfig.stateDirOf (c : RunConfig) (root : String) : String := Path.join root c.stateDir

/-- The filter of a root, which leaves out the state directory. -/
def RunConfig.filterOf (c : RunConfig) (root : String) : Except IndexError FileFilter :=
  FileFilter.ofConfig root
    { c.scan with stateDir := (Path.fileName? (c.stateDirOf root)).getD c.scan.stateDir }

structure RunSetting (σ : Type) where
  config : RunConfig
  root : String
  extractor : Extractor
  store : VectorStore σ
  env : Surroundings

def RunSetting.stateDir {σ : Type} (s : RunSetting σ) : String := s.config.stateDirOf s.root

structure RunPlan where
  head : Option String
  headMoved : Bool
  divergence : HeadDivergence
  force : Bool

/-- A file written now has content other than that of the commit the index reflects. -/
def RunPlan.isDiverged (p : RunPlan) (path : String) : Bool :=
  p.headMoved || p.divergence.contains path

structure RunState (σ : Type) where
  world : World σ
  checkpoint : Checkpoint
  manifest : Manifest
  result : IndexResult
  progress : Progress
  optimizer : BatchOptimizer
  batchIndex : Nat
  unreadable : Nat

namespace RunState

variable {σ : Type}

def inWorld {α : Type} (act : RunM (World σ) α) : RunM (RunState σ) α :=
  ExceptT.mk fun s =>
    let (result, w) := act.run s.world
    (result, { s with world := w })

def inStore {α : Type} (call : StoreM (World σ) α) : RunM (RunState σ) α :=
  ExceptT.mk fun s =>
    let (result, w) := call.run s.world
    (result.mapError .storeWrite, { s with world := w })

def saveCheckpoint (setting : RunSetting σ) : RunM (RunState σ) Unit := do
  let s ← get
  inWorld (World.save setting.env setting.stateDir Checkpoint.fileName s.checkpoint.fileText)

def saveManifest (setting : RunSetting σ) : RunM (RunState σ) Unit := do
  let s ← get
  inWorld (World.save setting.env setting.stateDir Manifest.fileName s.manifest.fileText)

def commitBatch (setting : RunSetting σ) (files : List String) : RunM (RunState σ) Unit := do
  saveManifest setting
  modify fun s =>
    { s with checkpoint := s.checkpoint.recordBatch s.batchIndex files s.world.clock }
  saveCheckpoint setting
  modify fun s => { s with
    world := s.world.mark .batchSaved
    batchIndex := s.batchIndex + 1
    result := { s.result with batches := s.result.batches + 1 } }

def addStats (s : RunState σ) (stats : WriteStats) : RunState σ :=
  { s with result := { s.result with
    entitiesAdded := s.result.entitiesAdded + stats.added
    entitiesRemoved := s.result.entitiesRemoved + stats.removed
    entitiesRenamed := s.result.entitiesRenamed + stats.renamed
    entitiesUnchanged := s.result.entitiesUnchanged + stats.unchanged } }

def addUnreadable (s : RunState σ) : RunState σ :=
  { s with
    unreadable := s.unreadable + 1
    result := { s.result with filesSkipped := s.result.filesSkipped + 1 } }

def addFailure (s : RunState σ) (path : String) (e : IndexError) : RunState σ :=
  { s with result := s.result.recordFailure path e.message }

def now (s : RunState σ) : Duration := s.world.unixTime

end RunState

end CodeIndex
