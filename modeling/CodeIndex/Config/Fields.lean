import CodeIndex.Config.Basic

namespace CodeIndex

inductive Fields (V : Type) where
  | named (fields : List (String × V))
  | ordered (items : List V)

def Fields.get? {V : Type} (fs : Fields V) (position : Nat) (name : String) : Option V :=
  match fs with
  | .named fields => fields.lookup name
  | .ordered items => items[position]?

structure ValueReading (V : Type) where
  fields? : V → Option (Fields V)
  list? : V → Option (List V)
  text? : V → Option String
  nat? : (bits : Nat) → V → Option Nat
  double? : V → Option Double
  truth? : V → Option Bool
  isMissing : V → Bool

namespace ValueReading

variable {V : Type} (r : ValueReading V)

def field {α : Type} (read : V → Option α) (default : α) (fs : Fields V) (position : Nat)
    (name : String) : Option α :=
  match fs.get? position name with
  | none => some default
  | some value => read value

def texts? (value : V) : Option (List String) := do (← r.list? value).mapM r.text?

def optionalText? (value : V) : Option (Option String) :=
  if r.isMissing value then some none else (r.text? value).map some

def index? (value : V) : Option IndexSection := do
  let fs ← r.fields? value
  let d : IndexSection := {}
  return {
    stateDir := ← field r.text? d.stateDir fs 0 "state_dir"
    extensions := ← field r.texts? d.extensions fs 1 "extensions"
    exclude := ← field r.texts? d.exclude fs 2 "exclude"
    respectGitignore := ← field r.truth? d.respectGitignore fs 3 "respect_gitignore"
    maxFileBytes := ← field (r.nat? 64) d.maxFileBytes fs 4 "max_file_bytes"
    workers := ← field (r.nat? 64) d.workers fs 5 "workers"
    filesPerBatch := ← field (r.nat? 64) d.filesPerBatch fs 6 "files_per_batch"
    variants := ← field r.texts? d.variants fs 7 "variants" }

def embeddings? (value : V) : Option EmbeddingsSection := do
  let fs ← r.fields? value
  let d : EmbeddingsSection := {}
  return {
    provider := ← field r.text? d.provider fs 0 "provider"
    apiKey := ← field r.optionalText? d.apiKey fs 1 "api_key"
    model := ← field r.text? d.model fs 2 "model"
    dimensions := ← field (r.nat? 64) d.dimensions fs 3 "dimensions"
    baseUrl := ← field r.optionalText? d.baseUrl fs 4 "base_url"
    maxBatchSize := ← field (r.nat? 64) d.maxBatchSize fs 5 "max_batch_size"
    maxConcurrency := ← field (r.nat? 64) d.maxConcurrency fs 6 "max_concurrency" }

def batching? (value : V) : Option BatchingSection := do
  let fs ← r.fields? value
  let d : BatchingSection := {}
  return {
    initialSize := ← field (r.nat? 64) d.initialSize fs 0 "initial_size"
    minSize := ← field (r.nat? 64) d.minSize fs 1 "min_size"
    growthFactor := ← field r.double? d.growthFactor fs 2 "growth_factor"
    shrinkFactor := ← field r.double? d.shrinkFactor fs 3 "shrink_factor"
    latencyCeilingMs := ← field (r.nat? 64) d.latencyCeilingMs fs 4 "latency_ceiling_ms"
    memoryCeilingBytes := ← field (r.nat? 64) d.memoryCeilingBytes fs 5 "memory_ceiling_bytes" }

def retry? (value : V) : Option RetrySection := do
  let fs ← r.fields? value
  let d : RetrySection := {}
  return {
    maxAttempts := ← field (r.nat? 32) d.maxAttempts fs 0 "max_attempts"
    baseBackoffMs := ← field (r.nat? 64) d.baseBackoffMs fs 1 "base_backoff_ms"
    maxBackoffMs := ← field (r.nat? 64) d.maxBackoffMs fs 2 "max_backoff_ms"
    callTimeoutSecs := ← field (r.nat? 64) d.callTimeoutSecs fs 3 "call_timeout_secs" }

def store? (value : V) : Option StoreSection := do
  let fs ← r.fields? value
  let d : StoreSection := {}
  return {
    qdrantUrl := ← field r.text? d.qdrantUrl fs 0 "qdrant_url"
    qdrantApiKey := ← field r.optionalText? d.qdrantApiKey fs 1 "qdrant_api_key"
    collectionName := ← field r.text? d.collectionName fs 2 "collection_name" }

def freshness? (value : V) : Option FreshnessSection := do
  let fs ← r.fields? value
  let d : FreshnessSection := {}
  return { maxAgeSecs := ← field (r.nat? 64) d.maxAgeSecs fs 0 "max_age_secs" }

def config? (fs : Fields V) : Option Config :=
  return {
    index := ← field r.index? {} fs 0 "index"
    embeddings := ← field r.embeddings? {} fs 1 "embeddings"
    batching := ← field r.batching? {} fs 2 "batching"
    retry := ← field r.retry? {} fs 3 "retry"
    store := ← field r.store? {} fs 4 "store"
    freshness := ← field r.freshness? {} fs 5 "freshness" }

end ValueReading

end CodeIndex
