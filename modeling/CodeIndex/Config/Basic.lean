import CodeIndex.Number.Double

namespace CodeIndex

abbrev Variables := List (String × String)

structure IndexSection where
  stateDir : String := ".sift"
  extensions : List String := ["rs", "py", "js", "jsx", "ts", "tsx", "go"]
  exclude : List String := []
  respectGitignore : Bool := true
  maxFileBytes : Nat := 1048576
  workers : Nat := 4
  filesPerBatch : Nat := 16
  variants : List String := ["metadata"]
deriving DecidableEq, Repr, Inhabited

structure EmbeddingsSection where
  provider : String := "openrouter"
  apiKey : Option String := some "$\x7bOPENROUTER_API_KEY\x7d"
  model : String := "qwen/qwen3-embedding-8b"
  dimensions : Nat := 4096
  baseUrl : Option String := none
  maxBatchSize : Nat := 32
  maxConcurrency : Nat := 2
deriving DecidableEq, Repr, Inhabited

structure BatchingSection where
  initialSize : Nat := 8
  minSize : Nat := 1
  growthFactor : Double := .ofInt 2
  shrinkFactor : Double := .ofFloat 0.5
  latencyCeilingMs : Nat := 10000
  memoryCeilingBytes : Nat := 67108864
deriving DecidableEq, Repr, Inhabited

structure RetrySection where
  maxAttempts : Nat := 2
  baseBackoffMs : Nat := 500
  maxBackoffMs : Nat := 8000
  callTimeoutSecs : Nat := 60
deriving DecidableEq, Repr, Inhabited

structure StoreSection where
  qdrantUrl : String := "http://localhost:6334"
  qdrantApiKey : Option String := none
  collectionName : String := "sift-codebase"
deriving DecidableEq, Repr, Inhabited

structure FreshnessSection where
  maxAgeSecs : Nat := 86400
deriving DecidableEq, Repr, Inhabited

structure Config where
  index : IndexSection := {}
  embeddings : EmbeddingsSection := {}
  batching : BatchingSection := {}
  retry : RetrySection := {}
  store : StoreSection := {}
  freshness : FreshnessSection := {}
deriving DecidableEq, Repr, Inhabited

inductive ConfigFault where
  | zero (field : String)
  | noVariant
  | unknownVariant (name : String)
  | minSize
  | shrinkFactor
  | growthFactor
  | noAttempt
deriving DecidableEq, Repr, Inhabited

def ConfigFault.message : ConfigFault → String
  | .zero field => field ++ " must be greater than 0"
  | .noVariant => "index.variants must name at least one variant"
  | .unknownVariant name =>
    "index.variants: unknown variant '" ++ name ++ "' (expected \"metadata\" or \"full\")"
  | .minSize => "batching.min_size must be at least 1 and not above batching.initial_size"
  | .shrinkFactor => "batching.shrink_factor must be between 0 and 1"
  | .growthFactor => "batching.growth_factor must be greater than 1"
  | .noAttempt => "retry.max_attempts must be at least 1"

inductive ConfigError where
  | load
  | read
  | parse
  | invalid (fault : ConfigFault)
  | missingSecret (name value : String)
deriving DecidableEq, Repr, Inhabited

def ConfigError.message : ConfigError → String
  | .load => "Failed to load configuration"
  | .read => "Failed to read config file"
  | .parse => "Failed to parse config file"
  | .invalid fault => "Invalid configuration: " ++ fault.message
  | .missingSecret name value =>
    "Environment variable '" ++ name ++ "' not set (from config value '" ++ value ++ "')"

namespace Config

def faultIf (condition : Bool) (fault : ConfigFault) : List ConfigFault :=
  if condition then [fault] else []

def faults (c : Config) : List ConfigFault :=
  let shrink := c.batching.shrinkFactor.toFloat
  faultIf (c.embeddings.dimensions = 0) (.zero "embeddings.dimensions")
  ++ faultIf (c.embeddings.maxBatchSize = 0) (.zero "embeddings.max_batch_size")
  ++ faultIf (c.index.workers = 0) (.zero "index.workers")
  ++ faultIf (c.index.filesPerBatch = 0) (.zero "index.files_per_batch")
  ++ faultIf c.index.variants.isEmpty .noVariant
  ++ (c.index.variants.filter fun v => v != "metadata" && v != "full").map .unknownVariant
  ++ faultIf (c.batching.minSize = 0 || c.batching.initialSize < c.batching.minSize) .minSize
  ++ faultIf (!(0.0 < shrink && shrink < 1.0)) .shrinkFactor
  ++ faultIf (c.batching.growthFactor.toFloat ≤ 1.0) .growthFactor
  ++ faultIf (c.retry.maxAttempts = 0) .noAttempt

def validate (c : Config) : Except ConfigError Config :=
  match c.faults with
  | [] => .ok c
  | fault :: _ => .error (.invalid fault)

def maxAgeSecs? (c : Config) : Option Nat :=
  if c.freshness.maxAgeSecs = 0 then none else some c.freshness.maxAgeSecs

end Config

end CodeIndex
