import CodeIndex.Json.Decode
import CodeIndex.Json.Printer
import CodeIndex.Json.Reader
import CodeIndex.Run.Error
import CodeIndex.State.Manifest

namespace CodeIndex

def FileRecord.toJson (r : FileRecord) : Json :=
  .record [("path", .text r.path), ("content_hash", .text r.contentHash),
    ("last_seen_commit", .optional .text r.lastSeenCommit),
    ("modification_time", .nat r.modificationTime), ("lineage", .text r.lineage),
    ("entity_ids", .array (r.entityIds.map .text)), ("diverged", .bool r.diverged)]

def FileRecord.ofJson? (value : Json) : Option FileRecord := do
  let fields ← Json.slots ["path", "content_hash", "last_seen_commit", "modification_time",
    "lineage", "entity_ids", "diverged"] false value
  match fields with
  | [path, hash, commit, modified, lineage, ids, diverged] =>
    some {
      path := ← path.required Json.text?
      contentHash := ← hash.required Json.text?
      lastSeenCommit := ← commit.nullable Json.text?
      modificationTime := ← modified.required Json.u64?
      lineage := ← lineage.required Json.text?
      entityIds := ← ids.required (Json.list? Json.text?)
      diverged := ← diverged.withDefault false Json.bool? }
  | _ => none

namespace Manifest

def updatedJson (d : Duration) : Json :=
  .record [("secs_since_epoch", .nat d.secs), ("nanos_since_epoch", .nat d.nanos)]

def updated? (value : Json) : Option Duration := do
  let d ← Json.durationNamed? "secs_since_epoch" "nanos_since_epoch" value
  if d.secs < Nat.pow 2 63 then some d else none

def toJson (m : Manifest) : Json :=
  .record [("version", .nat m.version), ("last_updated", .optional updatedJson m.lastUpdated),
    ("files", .record (m.files.toList.map fun (path, r) => (path, r.toJson)))]

def ofJson? (value : Json) : Option Manifest := do
  let fields ← Json.slots ["version", "last_updated", "files"] false value
  match fields with
  | [version, updated, files] =>
    some {
      version := ← version.required Json.u32?
      lastUpdated := ← updated.nullable updated?
      files := Std.ExtTreeMap.ofList (← files.required (Json.entries? FileRecord.ofJson?)) }
  | _ => none

def fileText (m : Manifest) : String := m.toJson.pretty

def ofFile (path : String) (bytes : ByteArray) : Except IndexError Manifest :=
  match (Json.ofBytes? bytes).bind ofJson? with
  | none => .error (.checkpointCorrupt path "not a manifest")
  | some m => .ok m

def fileName : String := "manifest.json"

end Manifest

end CodeIndex
