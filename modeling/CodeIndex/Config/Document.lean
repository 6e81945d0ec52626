import CodeIndex.Config.Fields
import CodeIndex.Text.Utf8
import CodeIndex.Toml.Printer
import CodeIndex.Toml.Reader

namespace CodeIndex

/-- How settings are read from TOML values. A moment is a record of which no setting is a part. -/
def Toml.reading : ValueReading Toml where
  fields?
    | .table _ es => some (.named es)
    | .list items => some (.ordered items)
    | .tables elements => some (.ordered (elements.map (.table .header)))
    | .dateTime _ => some (.named [])
    | _ => none
  list?
    | .list items => some items
    | .tables elements => some (elements.map (.table .header))
    | _ => none
  text?
    | .text s => some s
    | _ => none
  nat? bits
    | .integer i => if 0 ≤ i ∧ i < Nat.pow 2 bits then some i.toNat else none
    | _ => none
  double?
    | .float d => some d
    | .integer i => some (.ofInt i)
    | _ => none
  truth?
    | .truth b => some b
    | _ => none
  isMissing _ := false

namespace Config

def ofBytes (document : Option ByteArray) : Except ConfigError Config :=
  match document.bind fun bytes => String.fromUTF8? bytes with
  | none => .error .read
  | some s =>
    match (Toml.ofText? s).bind fun es => Toml.reading.config? (.named es) with
    | none => .error .parse
    | some c => c.validate

/-- The sections of settings and what they set. A text that is missing is left out. -/
def sections (c : Config) : List (String × Toml.Entries) :=
  let texts (ss : List String) : Toml := .list (ss.map .text)
  let optional (name : String) (s : Option String) : Toml.Entries :=
    (s.map fun s => (name, Toml.text s)).toList
  let nat (n : Nat) : Toml := .integer n
  [("index", [("state_dir", .text c.index.stateDir), ("extensions", texts c.index.extensions),
      ("exclude", texts c.index.exclude), ("respect_gitignore", .truth c.index.respectGitignore),
      ("max_file_bytes", nat c.index.maxFileBytes), ("workers", nat c.index.workers),
      ("files_per_batch", nat c.index.filesPerBatch), ("variants", texts c.index.variants)]),
    ("embeddings", [("provider", .text c.embeddings.provider)]
      ++ optional "api_key" c.embeddings.apiKey
      ++ [("model", .text c.embeddings.model), ("dimensions", nat c.embeddings.dimensions)]
      ++ optional "base_url" c.embeddings.baseUrl
      ++ [("max_batch_size", nat c.embeddings.maxBatchSize),
        ("max_concurrency", nat c.embeddings.maxConcurrency)]),
    ("batching", [("initial_size", nat c.batching.initialSize),
      ("min_size", nat c.batching.minSize), ("growth_factor", .float c.batching.growthFactor),
      ("shrink_factor", .float c.batching.shrinkFactor),
      ("latency_ceiling_ms", nat c.batching.latencyCeilingMs),
      ("memory_ceiling_bytes", nat c.batching.memoryCeilingBytes)]),
    ("retry", [("max_attempts", nat c.retry.maxAttempts),
      ("base_backoff_ms", nat c.retry.baseBackoffMs), ("max_backoff_ms", nat c.retry.maxBackoffMs),
      ("call_timeout_secs", nat c.retry.callTimeoutSecs)]),
    ("store", [("qdrant_url", .text c.store.qdrantUrl)]
      ++ optional "qdrant_api_key" c.store.qdrantApiKey
      ++ [("collection_name", .text c.store.collectionName)]),
    ("freshness", [("max_age_secs", nat c.freshness.maxAgeSecs)])]

def toText (c : Config) : String := Toml.documentText c.sections

end Config

end CodeIndex
