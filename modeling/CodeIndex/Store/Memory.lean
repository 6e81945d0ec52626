import Std.Data.ExtTreeMap
import CodeIndex.Store.VectorStore

namespace CodeIndex

structure MemoryStore where
  entries : Std.ExtTreeMap String StoredEntity := ∅
deriving DecidableEq, Repr, Inhabited

namespace MemoryStore

def get? (s : MemoryStore) (id : String) : Option StoredEntity := s.entries[id]?

def size (s : MemoryStore) : Nat := s.entries.size

def toList (s : MemoryStore) : List (String × StoredEntity) := s.entries.toList

def derivedFor (s : MemoryStore) (path : String) : List (String × StoredEntity) :=
  s.toList.filter fun (_, e) => e.isDerivedFor path

def idsForPath (s : MemoryStore) (path : String) : List String := (s.derivedFor path).map (·.1)

def insertCurated (s : MemoryStore) (entity : Entity) (vector : Embedding) : MemoryStore :=
  ⟨s.entries.insert entity.id ⟨entity, vector, .curated⟩⟩

def isCurated (s : MemoryStore) (id : String) : Bool :=
  (s.get? id).any (·.origin == .curated)

def upsertOne (s : MemoryStore) (e : EmbeddedEntity) : MemoryStore :=
  if s.isCurated e.entity.id then s
  else ⟨s.entries.insert e.entity.id ⟨e.entity, e.vector, .derived⟩⟩

def upsert (s : MemoryStore) (entities : List EmbeddedEntity) : MemoryStore :=
  entities.foldl upsertOne s

def deleteByPath (s : MemoryStore) (path : String) : MemoryStore :=
  ⟨s.entries.filter fun _ e => !e.isDerivedFor path⟩

def isDerived (s : MemoryStore) (id : String) : Bool :=
  (s.get? id).any (·.origin == .derived)

/-- Removes the derived entries with some ids; a second mention of an id removes nothing. -/
def deleteIds (s : MemoryStore) (ids : List String) : Nat × MemoryStore :=
  ids.foldl (fun (count, s) id =>
    if s.isDerived id then (count + 1, ⟨s.entries.erase id⟩) else (count, s)) (0, s)

def updatePath (s : MemoryStore) (source target : String) : MemoryStore :=
  ⟨s.entries.map fun _ e =>
    if e.isDerivedFor source then { e with entity := { e.entity with filePath := target } }
    else e⟩

def countForPath (s : MemoryStore) (path : String) : Nat := (s.derivedFor path).length

def calls : VectorStore MemoryStore where
  upsert entities := modify (·.upsert entities)
  deleteByPath path := do
    let s ← get
    set (s.deleteByPath path)
    return s.countForPath path
  deleteIds ids := do
    let (count, s) := (← get).deleteIds ids
    set s
    return count
  updatePath source target := do
    let s ← get
    set (s.updatePath source target)
    return s.countForPath source
  countForPath path := return (← get).countForPath path

end MemoryStore

end CodeIndex
