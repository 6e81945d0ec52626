import CodeIndex.Json.Decode

namespace CodeIndex

inductive RunOutcome where
  | completed | completedWithErrors | aborted
deriving DecidableEq, Repr, Inhabited

namespace RunOutcome

def name : RunOutcome → String
  | .completed => "completed"
  | .completedWithErrors => "completed_with_errors"
  | .aborted => "aborted"

def ofName? (s : String) : Option RunOutcome :=
  [completed, completedWithErrors, aborted].find? fun o => o.name == s

end RunOutcome

structure FileFailure where
  path : String
  error : String
deriving DecidableEq, Repr, Inhabited

structure IndexResult where
  status : RunOutcome := .completed
  runId : String
  filesProcessed : Nat := 0
  filesSkipped : Nat := 0
  filesFailed : Nat := 0
  entitiesAdded : Nat := 0
  entitiesRemoved : Nat := 0
  entitiesRenamed : Nat := 0
  entitiesUnchanged : Nat := 0
  embeddingCalls : Nat := 0
  batches : Nat := 0
  resumed : Bool := false
  lastIndexedCommit : Option String := none
  durationMs : Nat := 0
  errors : List FileFailure := []
  abortReason : Option String := none
deriving DecidableEq, Repr, Inhabited

namespace IndexResult

def recordFailure (r : IndexResult) (path error : String) : IndexResult :=
  { r with filesFailed := r.filesFailed + 1, errors := r.errors ++ [⟨path, error⟩] }

def abort (r : IndexResult) (reason : String) : IndexResult :=
  { r with status := .aborted, abortReason := some reason }

def finish (r : IndexResult) : IndexResult :=
  if r.status = .aborted then r
  else { r with status := if 0 < r.filesFailed then .completedWithErrors else .completed }

def counts (r : IndexResult) : String :=
  r.status.name ++ ": " ++ toString r.filesProcessed ++ " processed, "
    ++ toString r.filesSkipped ++ " skipped, " ++ toString r.filesFailed ++ " failed; entities +"
    ++ toString r.entitiesAdded ++ " -" ++ toString r.entitiesRemoved ++ " ~"
    ++ toString r.entitiesRenamed ++ " =" ++ toString r.entitiesUnchanged ++ "; "
    ++ toString r.embeddingCalls ++ " embedding calls in " ++ toString r.batches ++ " batches"

def summary (r : IndexResult) : String :=
  r.counts ++ " (" ++ toString r.durationMs ++ " ms)"

def failureJson (f : FileFailure) : Json :=
  .record [("path", .text f.path), ("error", .text f.error)]

def members (r : IndexResult) : List (String × Json) := [
  ("status", .text r.status.name), ("run_id", .text r.runId),
  ("files_processed", .nat r.filesProcessed), ("files_skipped", .nat r.filesSkipped),
  ("files_failed", .nat r.filesFailed), ("entities_added", .nat r.entitiesAdded),
  ("entities_removed", .nat r.entitiesRemoved), ("entities_renamed", .nat r.entitiesRenamed),
  ("entities_unchanged", .nat r.entitiesUnchanged),
  ("embedding_calls", .nat r.embeddingCalls), ("batches", .nat r.batches),
  ("resumed", .bool r.resumed),
  ("last_indexed_commit", .optional .text r.lastIndexedCommit),
  ("duration_ms", .nat r.durationMs), ("errors", .array (r.errors.map failureJson))]

/-- The JSON form of a result; the reason of an abort stands only where there is one. -/
def toJson (r : IndexResult) : Json :=
  .record (r.members ++ match r.abortReason with
    | some reason => [("abort_reason", .text reason)]
    | none => [])

def failure? (value : Json) : Option FileFailure := do
  match ← Json.slots ["path", "error"] false value with
  | [path, error] => some ⟨← path.required Json.text?, ← error.required Json.text?⟩
  | _ => none

def ofJson? (value : Json) : Option IndexResult := do
  let fields ← Json.slots ["status", "run_id", "files_processed", "files_skipped",
    "files_failed", "entities_added", "entities_removed", "entities_renamed",
    "entities_unchanged", "embedding_calls", "batches", "resumed", "last_indexed_commit",
    "duration_ms", "errors", "abort_reason"] false value
  match fields with
  | [status, runId, processed, skipped, failed, added, removed, renamed, unchanged, calls,
      batches, resumed, commit, duration, errors, reason] =>
    some {
      status := ← status.required (Json.name? RunOutcome.ofName?)
      runId := ← runId.required Json.text?
      filesProcessed := ← processed.required Json.u64?
      filesSkipped := ← skipped.required Json.u64?
      filesFailed := ← failed.required Json.u64?
      entitiesAdded := ← added.required Json.u64?
      entitiesRemoved := ← removed.required Json.u64?
      entitiesRenamed := ← renamed.required Json.u64?
      entitiesUnchanged := ← unchanged.required Json.u64?
      embeddingCalls := ← calls.required Json.u64?
      batches := ← batches.required Json.u64?
      resumed := ← resumed.required Json.bool?
      lastIndexedCommit := ← commit.nullable Json.text?
      durationMs := ← duration.required Json.u64?
      errors := ← errors.withDefault [] (Json.list? failure?)
      abortReason := ← reason.nullable Json.text? }
  | _ => none

end IndexResult

end CodeIndex
