import CodeIndex.Entity.Basic
import CodeIndex.Json.Value

namespace CodeIndex

def Span.toJson (s : Span) : Json :=
  .record [("start_line", .nat s.startLine), ("end_line", .nat s.endLine)]

def Entity.toJson (e : Entity) : Json :=
  .record [("id", .text e.id), ("file_path", .text e.filePath), ("kind", .text e.kind.name),
    ("name", .text e.name), ("span", e.span.toJson), ("content_hash", .text e.contentHash),
    ("variant", .text e.variant.name), ("signature", .optional .text e.signature),
    ("scope", .optional .text e.scope), ("text", .text e.text)]

end CodeIndex
