import CodeIndex.Json.Decode
import CodeIndex.Json.Printer
import CodeIndex.Json.Reader
import CodeIndex.Run.Error
import CodeIndex.State.Checkpoint

namespace CodeIndex.Checkpoint

def toJson (c : Checkpoint) : Json :=
  .record [("schema_version", .nat c.schemaVersion), ("run_id", .text c.runId),
    ("status", .text c.status.name),
    ("last_indexed_commit", .optional .text c.lastIndexedCommit),
    ("target_commit", .optional .text c.targetCommit),
    ("processed_files", .array (c.processedFiles.toList.map .text)),
    ("last_completed_batch_index", .optional .nat c.lastCompletedBatch),
    ("started_at", .text c.startedAt.text), ("timestamp", .text c.timestamp.text)]

def instant? (value : Json) : Option Timestamp := (Json.text? value).bind Timestamp.parse?

def ofJson? (value : Json) : Option Checkpoint := do
  let fields ← Json.slots ["schema_version", "run_id", "status", "last_indexed_commit",
    "target_commit", "processed_files", "last_completed_batch_index", "started_at", "timestamp"]
    false value
  match fields with
  | [schema, runId, status, last, target, files, batch, started, timestamp] =>
    some {
      schemaVersion := ← schema.required Json.u32?
      runId := ← runId.required Json.text?
      status := ← status.required (Json.name? RunStatus.ofName?)
      lastIndexedCommit := ← last.nullable Json.text?
      targetCommit := ← target.nullable Json.text?
      processedFiles := Std.ExtTreeSet.ofList (← files.required (Json.list? Json.text?))
      lastCompletedBatch := ← batch.nullable Json.u64?
      startedAt := ← started.required instant?
      timestamp := ← timestamp.required instant? }
  | _ => none

def fileText (c : Checkpoint) : String := c.toJson.pretty

def ofFile (path : String) (bytes : ByteArray) : Except IndexError Checkpoint :=
  match (Json.ofBytes? bytes).bind ofJson? with
  | none => .error (.checkpointCorrupt path "not a checkpoint")
  | some c =>
    if c.schemaVersion = currentSchema then .ok c
    else .error (.checkpointCorrupt path ("unknown schema version " ++ toString c.schemaVersion))

def fileName : String := "checkpoint.json"

end CodeIndex.Checkpoint
