import CodeIndex.Run.State

namespace CodeIndex.RunState

variable {σ : Type}

/-- Makes a request and waits for its answer, at most as long as a call may take. -/
def request (setting : RunSetting σ) (texts : List String) :
    RunM (RunState σ) (Duration × Option (Except EmbedError (List Embedding))) := do
  let s ← get
  if !setting.env.permits then throw (.transientProvider "embedding permits closed")
  let nth := s.world.requests.length + 1
  let reply := setting.env.reply nth texts
  let limit := setting.config.retry.callTimeout
  let inTime := reply.answer.isSome && !(limit < reply.latency)
  let latency := if inTime then reply.latency else limit
  let w := { s.world with
    requests := texts :: s.world.requests
    disk := setting.env.atRequest nth s.world.disk
    isCancelled := s.world.isCancelled || setting.env.cancelsAt nth }
  set { s with
    world := w.wait latency
    result := { s.result with embeddingCalls := s.result.embeddingCalls + 1 } }
  return (latency, if inTime then reply.answer else none)

/-- What a request came to: a vector for each text, or an error; an answer with another number of
vectors is one. -/
def settleAnswer (limit : Duration) (count : Nat) :
    Option (Except EmbedError (List Embedding)) → Except EmbedError (List Embedding)
  | none => .error (.transient ("timed out after " ++ limit.text))
  | some (.error e) => .error e
  | some (.ok vectors) =>
    if vectors.length = count then .ok vectors
    else .error (.transient ("provider returned " ++ toString vectors.length ++ " vectors for "
      ++ toString count ++ " texts"))

def outcomeOf (answered : Bool) : Except EmbedError (List Embedding) → BatchOutcome
  | .ok _ => .success
  | .error (.rateLimited _) => .rateLimited
  | .error .payloadTooLarge => .payloadTooLarge
  | .error (.transient _) => if answered then .transient else .timeout

def givenUp (size : Nat) : EmbedError → IndexError
  | .transient reason => .transientProvider reason
  | e => .providerRejectedBatch size e.message

def delayAfter (policy : RetryPolicy) (attempts : Nat) : EmbedError → Duration
  | .rateLimited (some after) => after
  | .payloadTooLarge => .zero
  | _ => policy.backoffFor attempts

/-- Embeds texts off the front of a list, and says what is left. `attemptsLeft` is what the policy
still allows. -/
def embedFront (setting : RunSetting σ) (texts : List String) :
    Nat → RunM (RunState σ) (List Embedding × List String)
  | 0 => throw (.transientProvider "no attempts left")
  | attemptsLeft + 1 => do
    let policy := setting.config.retry
    let attempts := max policy.maxAttempts 1 - attemptsLeft
    let size := min (← get).optimizer.currentSize texts.length
    let chunk := texts.take size
    let (latency, answer) ← request setting chunk
    let found := settleAnswer policy.callTimeout size answer
    modify fun s => { s with optimizer := s.optimizer.record {
      batchSize := size
      latency := latency
      memory := estimateMemory chunk setting.env.dimensions
      outcome := outcomeOf answer.isSome found } }
    match found with
    | .ok vectors => return (vectors, texts.drop size)
    | .error e =>
      let stuck := e = .payloadTooLarge ∧ ¬(← get).optimizer.canShrinkBelow size
      if stuck ∨ attemptsLeft = 0 then throw (givenUp size e)
      else
        modify fun s => { s with world := s.world.wait (delayAfter policy attempts e) }
        embedFront setting texts attemptsLeft

/-- Embeds texts in as many rounds as they need, at most one each. -/
def embedRounds (setting : RunSetting σ) :
    Nat → List Embedding → List String → RunM (RunState σ) (List Embedding)
  | _, found, [] => return found
  | 0, found, _ => return found
  | rounds + 1, found, texts => do
    let (vectors, rest) ← embedFront setting texts (max setting.config.retry.maxAttempts 1)
    embedRounds setting rounds (found ++ vectors) rest

def embedAll (setting : RunSetting σ) (texts : List String) : RunM (RunState σ) (List Embedding) :=
  embedRounds setting texts.length [] texts

end CodeIndex.RunState
