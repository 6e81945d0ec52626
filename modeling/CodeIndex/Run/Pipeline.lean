import CodeIndex.Run.Batching
import CodeIndex.State.Freshness

namespace CodeIndex

structure RunContext where
  checkpoint : Checkpoint
  manifest : Manifest
  isResumed : Bool
deriving DecidableEq, Inhabited

def RunContext.reference (c : RunContext) : Option String := c.checkpoint.lastIndexedCommit

inductive IndexMode where
  | auto (target : DiffTarget)
  | full
deriving DecidableEq, Repr, Inhabited

structure RunReport (σ : Type) where
  state : RunState σ
  outcome : Except IndexError IndexResult

namespace RunSetting

variable {σ : Type}

def treeView (setting : RunSetting σ) (filter : FileFilter) (d : Disk) : TreeView :=
  filter.treeView d (setting.env.git d)

def headOf (setting : RunSetting σ) (d : Disk) : Option String :=
  let git := setting.env.git d
  if git.isWorkTree then git.head else none

def freshRunId (setting : RunSetting σ) : RunM (World σ) String :=
  modifyGet fun w =>
    (setting.env.runId (w.runsStarted + 1), { w with runsStarted := w.runsStarted + 1 })

/-- Begins a run: with the lock, the checkpoint to go on from or a new one, and the manifest. -/
def openRun (setting : RunSetting σ) : RunM (World σ) RunContext := do
  World.lock setting.stateDir
  let w ← get
  let previous ← liftExcept (w.loadCheckpoint setting.stateDir)
  let manifest ← liftExcept (w.loadManifest setting.stateDir)
  match previous with
  | some c =>
    if c.status.isResumable then return ⟨c, manifest, true⟩
    else
      let id ← setting.freshRunId
      return ⟨.newRun id c.lastIndexedCommit none w.clock, manifest, false⟩
  | none =>
    let id ← setting.freshRunId
    return ⟨.newRun id none none w.clock, manifest, false⟩
where
  liftExcept {α : Type} (x : Except IndexError α) : RunM (World σ) α := ExceptT.mk (pure x)

def alreadyDone (c : RunContext) (changes : ChangeSet) : Nat :=
  if c.isResumed then
    (c.checkpoint.processedFiles.toList.filter fun p => !changes.mentioned.contains p).length
  else 0

def startState (setting : RunSetting σ) (w : World σ) (c : RunContext) (checkpoint : Checkpoint)
    (detection : Detection) : RunState σ where
  world := w
  checkpoint := checkpoint
  manifest := c.manifest
  result := {
    runId := checkpoint.runId
    resumed := c.isResumed
    filesSkipped := detection.skipped.length + alreadyDone c detection.changes }
  progress := ({} : Progress).start detection.changes.size
  optimizer := .start setting.config.batch setting.env.maxBatch
  batchIndex := checkpoint.nextBatch
  unreadable := detection.skipped.length

/-- The end of a run that went through all its files. Without failures the flags of the records
are settled, and the index reflects the commit that was checked out. -/
def complete (setting : RunSetting σ) (plan : RunPlan) : RunM (RunState σ) IndexResult := do
  let s ← get
  let advance := s.result.filesFailed = 0 ∧ s.unreadable = 0
  match plan.divergence with
  | .paths found =>
    if advance ∧ s.manifest.isUnsettled found then
      set { s with manifest := s.manifest.settleDivergence found s.now }
      RunState.saveManifest setting
  | _ => pure ()
  modify fun s => { s with checkpoint := s.checkpoint.complete advance s.world.clock }
  RunState.saveCheckpoint setting
  return (← get).result.finish

def failCheckpoint (s : RunState σ) : RunState σ :=
  { s with checkpoint := s.checkpoint.fail s.world.clock }

def conclude (setting : RunSetting σ) (plan : RunPlan) :
    Except IndexError RunState.Ending → RunM (RunState σ) IndexResult
  | .ok .finished => setting.complete plan
  | .ok .cancelled => return (← get).result.abort "cancelled"
  | .error (.storeWrite cause) => do
    modify failCheckpoint
    RunState.saveCheckpoint setting
    return (← get).result.abort ("store write failed: " ++ cause.message)
  | .error e => do
    modify failCheckpoint
    ExceptT.mk fun s => (.ok (), ((RunState.saveCheckpoint setting).run s).2)
    throw e

def execute (setting : RunSetting σ) (filter : FileFilter) (c : RunContext)
    (detection : Detection) (force : Bool) : RunM (World σ) (RunReport σ) := do
  let begun := { c.checkpoint with targetCommit := detection.head }.begin (← get).clock
  World.save setting.env setting.stateDir Checkpoint.fileName begun.fileText
  let w ← get
  let plan : RunPlan := {
    head := detection.head
    headMoved := detection.head.isSome && detection.head != begun.lastIndexedCommit
    divergence := (setting.treeView filter w.disk).headDivergence
    force := force }
  let (flow, s) := (RunState.runBatches setting plan detection.changes).run
    (setting.startState w c begun detection)
  let (outcome, s) := (setting.conclude plan flow).run s
  set s.world
  return ⟨s, outcome.map fun r => { r with lastIndexedCommit := s.checkpoint.lastIndexedCommit }⟩

def indexRepository (setting : RunSetting σ) (mode : IndexMode) :
    RunM (World σ) (RunReport σ) := do
  let c ← setting.openRun
  let filter ← ExceptT.mk (pure (setting.config.filterOf setting.root))
  let tree := setting.treeView filter (← get).disk
  match mode with
  | .full => setting.execute filter c (tree.detectAll c.manifest) true
  | .auto target =>
    setting.execute filter c (tree.detect c.manifest c.reference target) false

def indexChangeset (setting : RunSetting σ) (changes : ChangeSet) :
    RunM (World σ) (RunReport σ) := do
  let c ← setting.openRun
  let filter ← ExceptT.mk (pure (setting.config.filterOf setting.root))
  let d := (← get).disk
  let found := confirm c.manifest (filter.inspect d) changes
  setting.execute filter c ⟨found.changes, .supplied, setting.headOf d, found.skipped⟩ false

def detectChanges (setting : RunSetting σ) (w : World σ) (target : DiffTarget) :
    Except IndexError Detection := do
  let manifest ← w.loadManifest setting.stateDir
  let checkpoint ← w.loadCheckpoint setting.stateDir
  let filter ← setting.config.filterOf setting.root
  return (setting.treeView filter w.disk).detect manifest
    (checkpoint.bind (·.lastIndexedCommit)) target

def freshness (setting : RunSetting σ) (w : World σ) : Except IndexError Freshness := do
  let checkpoint ← w.loadCheckpoint setting.stateDir
  return .assess checkpoint (setting.headOf w.disk) w.clock setting.config.maxAge

end RunSetting

end CodeIndex
