import Std.Data.ExtTreeSet
import CodeIndex.Time.Timestamp

namespace CodeIndex

inductive RunStatus where
  | notStarted | running | checkpointed | completed | failed
deriving DecidableEq, Repr, Inhabited

namespace RunStatus

def all : List RunStatus := [notStarted, running, checkpointed, completed, failed]

def name : RunStatus → String
  | .notStarted => "not_started"
  | .running => "running"
  | .checkpointed => "checkpointed"
  | .completed => "completed"
  | .failed => "failed"

def ofName? (s : String) : Option RunStatus := all.find? fun status => status.name == s

/-- A run in this state was begun and not brought to its end. -/
def isResumable : RunStatus → Bool
  | .running | .checkpointed | .failed => true
  | _ => false

end RunStatus

structure Checkpoint where
  schemaVersion : Nat := 1
  runId : String
  status : RunStatus
  lastIndexedCommit : Option String
  targetCommit : Option String
  processedFiles : Std.ExtTreeSet String
  lastCompletedBatch : Option Nat
  startedAt : Timestamp
  timestamp : Timestamp
deriving DecidableEq, Repr, Inhabited

namespace Checkpoint

def currentSchema : Nat := 1

def newRun (runId : String) (last target : Option String) (now : Timestamp) : Checkpoint where
  schemaVersion := currentSchema
  runId := runId
  status := .notStarted
  lastIndexedCommit := last
  targetCommit := target
  processedFiles := ∅
  lastCompletedBatch := none
  startedAt := now
  timestamp := now

def begin (c : Checkpoint) (now : Timestamp) : Checkpoint :=
  { c with status := .running, timestamp := now }

def recordBatch (c : Checkpoint) (index : Nat) (files : List String) (now : Timestamp) :
    Checkpoint :=
  { c with
    processedFiles := c.processedFiles.insertMany files
    lastCompletedBatch := some index
    status := .checkpointed
    timestamp := now }

/-- The run is complete; with `advance`, the index reflects the target commit if there is one. -/
def complete (c : Checkpoint) (advance : Bool) (now : Timestamp) : Checkpoint :=
  { c with
    lastIndexedCommit := if advance then c.targetCommit.or c.lastIndexedCommit
      else c.lastIndexedCommit
    status := .completed
    timestamp := now }

def fail (c : Checkpoint) (now : Timestamp) : Checkpoint :=
  { c with status := .failed, timestamp := now }

def isProcessed (c : Checkpoint) (path : String) : Bool := c.processedFiles.contains path

def nextBatch (c : Checkpoint) : Nat :=
  match c.lastCompletedBatch with
  | none => 0
  | some index => index + 1

end Checkpoint

end CodeIndex
