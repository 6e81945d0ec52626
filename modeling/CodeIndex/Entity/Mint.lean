import CodeIndex.Digest.Fingerprint
import CodeIndex.Entity.Basic
import CodeIndex.Text.Blank
import CodeIndex.Text.Line

namespace CodeIndex

def lineageFields (path : String) : List String := ["lineage", path]

/-- The lineage of a file first seen at `path`; it stays with the file through renames. -/
def lineageFor (path : String) : String :=
  String.ofList ((Digest.fieldsDigest (lineageFields path)).toList.take 16)

def identityFields (lineage : String) (kind : EntityKind) (name : String) (startLine : Nat)
    (variant : ChunkVariant) (hash : ContentHash) : List String :=
  [lineage, kind.name, name, toString startLine, variant.name, hash]

def entityId (lineage : String) (kind : EntityKind) (name : String) (startLine : Nat)
    (variant : ChunkVariant) (hash : ContentHash) : String :=
  String.ofList
    ((Digest.fieldsDigest (identityFields lineage kind name startLine variant hash)).toList.take 32)

namespace ExtractedEntity

/-- The head of an entity: its signature, or the first line of its text, without trailing
blanks. -/
def head (e : ExtractedEntity) : String :=
  Text.trimEnd (e.signature.getD (Text.firstLine e.text))

/-- The text to embed: the scope, kind, name and lines, then the head or the whole text. -/
def rendered (e : ExtractedEntity) (variant : ChunkVariant) : String :=
  (match e.scope with
    | some scope => "# Scope: " ++ scope ++ "\n"
    | none => "")
  ++ "# " ++ e.kind.name ++ ": " ++ e.name ++ " (lines " ++ toString e.span.startLine ++ "-"
  ++ toString e.span.endLine ++ ")\n\n"
  ++ (match variant with
    | .metadata => e.head
    | .full => e.text)

def isMintable (e : ExtractedEntity) : Bool :=
  !Text.isAllBlank e.name && !Text.isAllBlank e.text && e.span.isValid

def mint (e : ExtractedEntity) (path lineage : String) (variant : ChunkVariant) : Entity where
  id := entityId lineage e.kind e.name e.span.startLine variant (Digest.textHash e.text)
  filePath := path
  kind := e.kind
  name := e.name
  span := e.span
  contentHash := Digest.textHash e.text
  variant := variant
  signature := e.signature
  scope := e.scope
  text := e.rendered variant

end ExtractedEntity

def keepFirst (seen : List String) : List Entity → List Entity
  | [] => []
  | e :: es =>
    if seen.contains e.id then keepFirst seen es else e :: keepFirst (e.id :: seen) es

/-- The entities of a file: every mintable item in every variant, each identity once. -/
def mintEntities (path lineage : String) (items : List ExtractedEntity)
    (variants : List ChunkVariant) : List Entity :=
  keepFirst [] ((items.filter (·.isMintable)).flatMap fun item =>
    variants.map fun variant => item.mint path lineage variant)

end CodeIndex
