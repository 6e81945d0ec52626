import Std.Data.ExtTreeSet
import CodeIndex.Json.Value
import CodeIndex.Store.VectorStore

/-!
Updates of a store by files. After an update the derived entries of a file are those of its
entities. New entries are written before old ones are removed, so that an update cut short leaves
extra entries and never a gap.
-/

namespace CodeIndex

structure WriteStats where
  added : Nat := 0
  removed : Nat := 0
  renamed : Nat := 0
  unchanged : Nat := 0
deriving DecidableEq, Repr, Inhabited

def WriteStats.toJson (s : WriteStats) : Json :=
  .record [("entities_added", .nat s.added), ("entities_removed", .nat s.removed),
    ("entities_renamed", .nat s.renamed), ("entities_unchanged", .nat s.unchanged)]

def WriteStats.merge (a b : WriteStats) : WriteStats :=
  ⟨a.added + b.added, a.removed + b.removed, a.renamed + b.renamed, a.unchanged + b.unchanged⟩

/-- The entities to embed, those without an entry so far, and the number of the others. With
`force` every entity is to be embedded. -/
def partitionNew (previous : Std.ExtTreeSet String) (entities : List Entity) (force : Bool) :
    List Entity × Nat :=
  if force then (entities, 0)
  else
    let fresh := entities.filter fun e => !previous.contains e.id
    (fresh, entities.length - fresh.length)

namespace VectorStore

def deleteFile {σ : Type} (store : VectorStore σ) (path : String) : StoreM σ WriteStats := do
  return { removed := ← store.deleteByPath path }

def renameFile {σ : Type} (store : VectorStore σ) (source target : String)
    (targetHadEntries : Bool) : StoreM σ WriteStats := do
  let removed ← if targetHadEntries then store.deleteByPath target else pure 0
  let renamed ← store.updatePath source target
  return { removed, renamed }

/-- Brings the entries of a file from the `previous` ids to the `current` ones, of which
`embedded` are to be written. Entries of a file that has no record are leftovers of an update cut
short. -/
def updateFile {σ : Type} (store : VectorStore σ) (path : String)
    (previous current : Std.ExtTreeSet String) (embedded : List EmbeddedEntity)
    (hasRecord : Bool) : StoreM σ WriteStats := do
  let leftover ← if hasRecord then pure 0 else store.deleteByPath path
  store.upsert embedded
  let stale := previous.toList.filter fun id => !current.contains id
  let dropped ← if stale.isEmpty then pure 0 else store.deleteIds stale
  return {
    added := embedded.length
    removed := leftover + dropped
    unchanged := (previous.toList.filter fun id => current.contains id).length }

end VectorStore

end CodeIndex
