import CodeIndex.Text.Quoted
import CodeIndex.Time.Duration

namespace CodeIndex

inductive StoreError where
  | unavailable (reason : String)
  | rejected (reason : String)
  | backend (reason : String)
deriving DecidableEq, Repr, Inhabited

def StoreError.message : StoreError → String
  | .unavailable reason => "Store unavailable: " ++ reason
  | .rejected reason => "Store rejected write: " ++ reason
  | .backend reason => "Store backend error: " ++ reason

def StoreError.kind : StoreError → String
  | .unavailable _ => "Unavailable"
  | .rejected _ => "Rejected"
  | .backend _ => "Backend"

def StoreError.ofKind (name reason : String) : StoreError :=
  if name == "unavailable" then .unavailable reason
  else if name == "rejected" then .rejected reason
  else .backend reason

inductive EmbedError where
  | rateLimited (retryAfter : Option Duration)
  | payloadTooLarge
  | transient (reason : String)
deriving DecidableEq, Repr, Inhabited

def EmbedError.kind : EmbedError → String
  | .rateLimited _ => "RateLimited"
  | .payloadTooLarge => "PayloadTooLarge"
  | .transient _ => "Transient"

def optionalDurationText : Option Duration → String
  | none => "None"
  | some d => "Some(" ++ d.text ++ ")"

def EmbedError.message : EmbedError → String
  | .rateLimited retryAfter =>
    "rate limited by provider (retry after " ++ optionalDurationText retryAfter ++ ")"
  | .payloadTooLarge => "batch payload rejected as too large"
  | .transient reason => "provider call failed: " ++ reason

inductive IndexError where
  | transientProvider (reason : String)
  | providerRejectedBatch (size : Nat) (reason : String)
  | fileRead (path reason : String)
  | storeWrite (cause : StoreError)
  | checkpointCorrupt (path reason : String)
  | lockConflict (path : String)
  | extract (path reason : String)
  | git (reason : String)
  | config (reason : String)
  | cancelled
  | io (reason : String)
  | json (reason : String)
deriving DecidableEq, Repr, Inhabited

namespace IndexError

def kind : IndexError → String
  | .transientProvider _ => "TransientProvider"
  | .providerRejectedBatch _ _ => "ProviderRejectedBatch"
  | .fileRead _ _ => "FileRead"
  | .storeWrite _ => "StoreWrite"
  | .checkpointCorrupt _ _ => "CheckpointCorrupt"
  | .lockConflict _ => "LockConflict"
  | .extract _ _ => "Extract"
  | .git _ => "Git"
  | .config _ => "Config"
  | .cancelled => "Cancelled"
  | .io _ => "Io"
  | .json _ => "Json"

def message : IndexError → String
  | .transientProvider reason => "Embedding provider failed after retries: " ++ reason
  | .providerRejectedBatch size reason =>
    "Provider rejected batch of " ++ toString size ++ " entities: " ++ reason
  | .fileRead path reason => "Failed to read " ++ Text.quoted path ++ ": " ++ reason
  | .storeWrite cause => "Vector store write failed: " ++ cause.message
  | .checkpointCorrupt path reason =>
    "Checkpoint state at " ++ Text.quoted path ++ " is corrupt: " ++ reason
  | .lockConflict path => "Another run holds the index lock at " ++ Text.quoted path
  | .extract path reason => "Extraction failed for " ++ path ++ ": " ++ reason
  | .git reason => "Git error: " ++ reason
  | .config reason => "Invalid configuration: " ++ reason
  | .cancelled => "Run cancelled"
  | .io reason => "IO error: " ++ reason
  | .json reason => "JSON error: " ++ reason

def isFatal : IndexError → Bool
  | .storeWrite _ | .checkpointCorrupt _ _ | .lockConflict _ | .io _ | .json _ => true
  | _ => false

end IndexError

end CodeIndex
