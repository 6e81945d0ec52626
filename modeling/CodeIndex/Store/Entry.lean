import CodeIndex.Entity.Basic

namespace CodeIndex

abbrev Embedding := List UInt32

/-- Where an entry came from: a run of the index, or a person. -/
inductive Origin where
  | derived | curated
deriving DecidableEq, Repr, Inhabited

namespace Origin

def name : Origin → String
  | .derived => "derived"
  | .curated => "curated"

def ofName? (s : String) : Option Origin := [derived, curated].find? fun o => o.name == s

end Origin

structure EmbeddedEntity where
  entity : Entity
  vector : Embedding
deriving DecidableEq, Repr, Inhabited

structure StoredEntity where
  entity : Entity
  vector : Embedding
  origin : Origin
deriving DecidableEq, Repr, Inhabited

def StoredEntity.isDerivedFor (e : StoredEntity) (path : String) : Bool :=
  e.origin == .derived && e.entity.filePath == path

end CodeIndex
