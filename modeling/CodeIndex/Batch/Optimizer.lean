import CodeIndex.Json.Decode

/-!
Batch sizes that adapt to the provider. A size grows after a full batch that stayed under both
ceilings, shrinks after a batch that was rejected or went over a ceiling, and stays between the
least size and the provider's hard limit.
-/

namespace CodeIndex

inductive BatchOutcome where
  | success | rateLimited | payloadTooLarge | timeout | transient
deriving DecidableEq, Repr, Inhabited

namespace BatchOutcome

def all : List BatchOutcome := [.success, .rateLimited, .payloadTooLarge, .timeout, .transient]

def name : BatchOutcome → String
  | .success => "success"
  | .rateLimited => "rate_limited"
  | .payloadTooLarge => "payload_too_large"
  | .timeout => "timeout"
  | .transient => "transient"

def ofName? (s : String) : Option BatchOutcome := all.find? fun o => o.name == s

def isRejection : BatchOutcome → Bool
  | .rateLimited | .payloadTooLarge => true
  | _ => false

end BatchOutcome

structure BatchMetrics where
  batchSize : Nat
  latency : Duration
  memory : Nat
  outcome : BatchOutcome
deriving DecidableEq, Repr, Inhabited

def BatchMetrics.toJson (m : BatchMetrics) : Json :=
  .record [("batch_size", .nat m.batchSize), ("observed_latency", .ofDuration m.latency),
    ("memory_delta", .nat m.memory), ("outcome", .text m.outcome.name)]

structure BatchConfig where
  initialSize : Nat := 8
  minSize : Nat := 1
  growthFactor : Float := 2.0
  shrinkFactor : Float := 0.5
  latencyCeiling : Duration := .ofSecs 10
  memoryCeiling : Nat := 67108864
deriving Inhabited

structure BatchOptimizer where
  config : BatchConfig
  hardLimit : Nat
  minSize : Nat
  currentSize : Nat
  history : List BatchMetrics

def clampNat (n low high : Nat) : Nat := if n < low then low else if high < n then high else n

def scaledUp (size : Nat) (factor : Float) : Nat :=
  (Float.ofNat size * factor).ceil.toUInt64.toNat

def scaledDown (size : Nat) (factor : Float) : Nat :=
  (Float.ofNat size * factor).floor.toUInt64.toNat

namespace BatchOptimizer

/-- The sizes at the start of a run, for a provider with a hard limit. -/
def start (config : BatchConfig) (hardLimit : Nat) : BatchOptimizer :=
  let hard := max hardLimit 1
  let least := clampNat config.minSize 1 hard
  ⟨config, hard, least, clampNat config.initialSize least hard, []⟩

def grown (o : BatchOptimizer) (size : Nat) : Nat :=
  min (max (scaledUp size o.config.growthFactor) (size + 1)) o.hardLimit

def shrunk (o : BatchOptimizer) (size : Nat) : Nat :=
  let next := scaledDown size o.config.shrinkFactor
  max (if size ≤ next then size - 1 else next) o.minSize

def isOverCeiling (o : BatchOptimizer) (m : BatchMetrics) : Bool :=
  o.config.latencyCeiling < m.latency || o.config.memoryCeiling < m.memory

/-- The size after an observation. Only a full batch says anything about the next size up. -/
def nextSize (o : BatchOptimizer) (m : BatchMetrics) : Nat :=
  match m.outcome with
  | .success =>
    if o.isOverCeiling m then o.shrunk o.currentSize
    else if o.currentSize ≤ m.batchSize then o.grown o.currentSize
    else o.currentSize
  | .rateLimited | .payloadTooLarge => o.shrunk (min o.currentSize m.batchSize)
  | .timeout | .transient => o.currentSize

def record (o : BatchOptimizer) (m : BatchMetrics) : BatchOptimizer :=
  { o with currentSize := o.nextSize m, history := m :: o.history }

def canShrinkBelow (o : BatchOptimizer) (size : Nat) : Bool := o.minSize < size

end BatchOptimizer

def estimateMemory (texts : List String) (dimensions : Nat) : Nat :=
  texts.foldl (fun n s => n + s.utf8ByteSize) 0 + texts.length * dimensions * 4

end CodeIndex
