import Std.Data.ExtTreeMap
import CodeIndex.Points.Uuid
import CodeIndex.Store.Entry

namespace CodeIndex

inductive PayloadValue where
  | text (s : String)
  | integer (i : Int)
deriving DecidableEq, Repr, Inhabited

abbrev Payload := Std.ExtTreeMap String PayloadValue

structure Point where
  vector : Embedding
  payload : Payload
deriving DecidableEq, Inhabited

inductive PointCondition where
  | keyword (key value : String)
  | hasId (ids : List String)
deriving DecidableEq, Repr, Inhabited

structure PointFilter where
  must : List PointCondition := []
  mustNot : List PointCondition := []
deriving DecidableEq, Repr, Inhabited

def PointCondition.holds (id : String) (p : Point) : PointCondition → Bool
  | .keyword key value => p.payload[key]? == some (.text value)
  | .hasId ids => ids.contains id

def PointFilter.chooses (f : PointFilter) (id : String) (p : Point) : Bool :=
  f.must.all (·.holds id p) && !f.mustNot.any (·.holds id p)

namespace Point

def curated : PointCondition := .keyword "origin" Origin.curated.name

def derivedFor (path : String) : PointFilter := ⟨[.keyword "file_path" path], [curated]⟩

def derivedAmong (ids : List String) : PointFilter := ⟨[.hasId ids], [curated]⟩

def curatedAmong (ids : List String) : PointFilter := ⟨[.hasId ids, curated], []⟩

def lineValue (n : Nat) : PayloadValue := .integer (Int.bmod n (Nat.pow 2 64))

def payloadOf (e : Entity) (origin : Origin) : Payload :=
  Std.ExtTreeMap.ofList ([("entity_id", .text e.id), ("file_path", .text e.filePath),
    ("kind", .text e.kind.name), ("name", .text e.name),
    ("line_start", lineValue e.span.startLine), ("line_end", lineValue e.span.endLine),
    ("content_hash", .text e.contentHash), ("variant", .text e.variant.name),
    ("origin", .text origin.name), ("text", .text e.text)]
    ++ (e.signature.map fun s => ("signature", PayloadValue.text s)).toList
    ++ (e.scope.map fun s => ("scope", PayloadValue.text s)).toList)

def ofEmbedded (e : EmbeddedEntity) : Point := ⟨e.vector, payloadOf e.entity .derived⟩

end Point

end CodeIndex
