import CodeIndex.Run.Batch
import CodeIndex.Run.Structural

namespace CodeIndex.RunState

variable {σ : Type}

inductive Ending where
  | finished | cancelled
deriving DecidableEq, Repr, Inhabited

structure Queue where
  ahead : List Prepared := []
  items : List WorkItem
  pending : List PreparedFile := []

def Queue.fill (q : Queue) (workers : Nat) (read : WorkItem → Prepared) : Queue :=
  let missing := max workers 1 - q.ahead.length
  { q with ahead := q.ahead ++ (q.items.take missing).map read, items := q.items.drop missing }

def takePrepared (s : RunState σ) (pending : List PreparedFile) :
    Prepared → RunState σ × List PreparedFile
  | .ready file =>
    ({ s with progress := s.progress.found file.fresh.length }, pending ++ [file])
  | .unreadable _ =>
    let s := s.addUnreadable
    ({ s with progress := s.progress.settled 1 }, pending)
  | .failed path cause =>
    let s := s.addFailure path cause
    ({ s with progress := s.progress.settled 1 }, pending)

def isFull (setting : RunSetting σ) (s : RunState σ) (pending : List PreparedFile) : Bool :=
  (s.optimizer.currentSize ≤ pending.foldl (fun n file => n + file.fresh.length) 0
    || max setting.config.filesPerBatch 1 ≤ pending.length) && !pending.isEmpty

/-- Goes through at most this many files, and writes the last batch. -/
def drain (setting : RunSetting σ) (plan : RunPlan) : Nat → Queue → RunM (RunState σ) Ending
  | 0, q => finish q.pending
  | files + 1, q => do
    let s ← get
    let q := q.fill setting.config.workers (prepare setting plan.force s.world.disk)
    match q.ahead with
    | [] => finish q.pending
    | next :: ahead =>
      let (s, pending) := takePrepared s q.pending next
      set s
      if isFull setting s pending then
        if s.world.isCancelled then return .cancelled
        else
          writeBatch setting plan pending
          drain setting plan files { q with ahead := ahead, pending := [] }
      else drain setting plan files { q with ahead := ahead, pending := pending }
where
  finish (pending : List PreparedFile) : RunM (RunState σ) Ending := do
    if pending.isEmpty then return .finished
    else if (← get).world.isCancelled then return .cancelled
    else
      writeBatch setting plan pending
      return .finished

def runBatches (setting : RunSetting σ) (plan : RunPlan) (changes : ChangeSet) :
    RunM (RunState σ) Ending := do
  if (← get).world.isCancelled then return .cancelled
  else
    let reindex ←
      if changes.deleted.isEmpty && changes.renamed.isEmpty then pure []
      else applyStructural setting plan changes
    let paths := sortedPaths (changes.added ++ changes.modified ++ reindex)
    let manifest := (← get).manifest
    drain setting plan paths.length { items := paths.map (WorkItem.ofPath manifest) }

end CodeIndex.RunState
