namespace CodeIndex

inductive EntityKind where
  | function | method | class_ | struct | enum | trait | interface | impl | constant | module
deriving DecidableEq, Repr, Inhabited

namespace EntityKind

def all : List EntityKind :=
  [.function, .method, .class_, .struct, .enum, .trait, .interface, .impl, .constant, .module]

def name : EntityKind → String
  | .function => "function"
  | .method => "method"
  | .class_ => "class"
  | .struct => "struct"
  | .enum => "enum"
  | .trait => "trait"
  | .interface => "interface"
  | .impl => "impl"
  | .constant => "constant"
  | .module => "module"

def ofName? (s : String) : Option EntityKind := all.find? fun k => k.name == s

end EntityKind

/-- Which text of an entity is embedded: its head or the whole of it. -/
inductive ChunkVariant where
  | metadata | full
deriving DecidableEq, Repr, Inhabited

namespace ChunkVariant

def name : ChunkVariant → String
  | .metadata => "metadata"
  | .full => "full"

def ofName? (s : String) : Option ChunkVariant :=
  [metadata, full].find? fun v => v.name == s

end ChunkVariant

structure Span where
  startLine : Nat
  endLine : Nat
deriving DecidableEq, Repr, Inhabited

def Span.isValid (s : Span) : Bool := 1 ≤ s.startLine && s.startLine ≤ s.endLine

structure ExtractedEntity where
  kind : EntityKind
  name : String
  span : Span
  signature : Option String
  scope : Option String
  text : String
deriving DecidableEq, Repr, Inhabited

/-- An entity of a file in one variant, with its identity and the text to embed. -/
structure Entity where
  id : String
  filePath : String
  kind : EntityKind
  name : String
  span : Span
  contentHash : String
  variant : ChunkVariant
  signature : Option String
  scope : Option String
  text : String
deriving DecidableEq, Repr, Inhabited

end CodeIndex
