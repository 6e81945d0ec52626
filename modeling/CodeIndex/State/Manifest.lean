import Std.Data.ExtTreeMap
import Std.Data.ExtTreeSet
import CodeIndex.Digest.Fingerprint
import CodeIndex.Time.Duration

namespace CodeIndex

structure FileRecord where
  path : String
  contentHash : ContentHash
  lastSeenCommit : Option String
  modificationTime : Nat
  lineage : String
  entityIds : List String
  diverged : Bool := false
deriving DecidableEq, Repr, Inhabited

structure Manifest where
  version : Nat := 1
  lastUpdated : Option Duration := none
  files : Std.ExtTreeMap String FileRecord := ∅
deriving DecidableEq, Repr, Inhabited

namespace Manifest

def empty : Manifest := {}

def get? (m : Manifest) (path : String) : Option FileRecord := m.files[path]?

def isEmpty (m : Manifest) : Bool := m.files.isEmpty

def paths (m : Manifest) : List String := m.files.keys

def records (m : Manifest) : List FileRecord := m.files.toList.map (·.2)

def needsUpdate (m : Manifest) (path : String) (hash : ContentHash) : Bool :=
  match m.get? path with
  | some r => r.contentHash != hash
  | none => true

def recordIndexed (m : Manifest) (r : FileRecord) (now : Duration) : Manifest :=
  { m with files := m.files.insert r.path r, lastUpdated := some now }

def removeFile (m : Manifest) (path : String) (now : Duration) : Manifest :=
  match m.get? path with
  | none => m
  | some _ => { m with files := m.files.erase path, lastUpdated := some now }

/-- Moves the record of a path, if there is one; a commit replaces the one it was last seen at. -/
def renameFile (m : Manifest) (source target : String) (commit : Option String)
    (now : Duration) : Manifest :=
  match m.get? source with
  | none => m
  | some r =>
    let moved := { r with path := target, lastSeenCommit := commit.or r.lastSeenCommit }
    { m with files := (m.files.erase source).insert target moved, lastUpdated := some now }

def divergedPaths (m : Manifest) : List String := (m.records.filter (·.diverged)).map (·.path)

def setDiverged (m : Manifest) (path : String) (value : Bool) : Manifest :=
  match m.get? path with
  | none => m
  | some r => { m with files := m.files.insert path { r with diverged := value } }

def isUnsettled (m : Manifest) (paths : Std.ExtTreeSet String) : Bool :=
  m.records.any fun r => r.diverged != paths.contains r.path

def settleDivergence (m : Manifest) (paths : Std.ExtTreeSet String) (now : Duration) :
    Manifest :=
  if m.isUnsettled paths then
    { m with
      files := m.files.map fun _ r => { r with diverged := paths.contains r.path }
      lastUpdated := some now }
  else m

def deletedFrom (m : Manifest) (current : List String) : List String :=
  m.paths.filter fun path => !current.contains path

def pathsWithHash (m : Manifest) (hash : ContentHash) : List String :=
  (m.records.filter (·.contentHash == hash)).map (·.path)

def totalEntities (m : Manifest) : Nat :=
  m.records.foldl (fun n r => n + r.entityIds.length) 0

end Manifest

end CodeIndex
