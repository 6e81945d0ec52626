import CodeIndex.Disk.Change
import CodeIndex.Git.View
import CodeIndex.Store.VectorStore
import CodeIndex.Time.Timestamp

namespace CodeIndex

/-- What a provider makes of a request: how long it takes, and its answer if it ever gives one. -/
structure EmbedReply where
  latency : Duration
  answer : Option (Except EmbedError (List Embedding))

/-- What happens at a call to the store, ahead of the call. -/
inductive StoreHook where
  | proceed
  | fail (cause : StoreError)
  | alter (change : Disk → Disk)

inductive WriteHook where
  | proceed
  | fail (cause : DiskError) (written : Nat)

structure Surroundings where
  git : Disk → Git.View
  reply : Nat → List String → EmbedReply
  atRequest : Nat → Disk → Disk := fun _ d => d
  cancelsAt : Nat → Bool := fun _ => false
  atStore : StoreCall → Nat → StoreHook := fun _ _ => .proceed
  atWrite : Nat → WriteHook := fun _ => .proceed
  permits : Bool := true
  maxBatch : Nat
  dimensions : Nat
  runId : Nat → String

inductive Deed where
  | batchBegun (paths : List String)
  | storeCall (call : StoreCall)
  | diskWrite
  | batchSaved
deriving DecidableEq, Repr, Inhabited

/-- A moment of a run, as it would be found if the run stopped there. -/
structure Moment (σ : Type) where
  deed : Deed
  disk : Disk
  store : σ

structure World (σ : Type) where
  disk : Disk
  store : σ
  clock : Timestamp
  runsStarted : Nat := 0
  held : List Location := []
  isCancelled : Bool := false
  requests : List (List String) := []
  storeCalls : List StoreCall := []
  moments : List (Moment σ) := []

namespace World

variable {σ : Type}

def mark (w : World σ) (deed : Deed) : World σ :=
  { w with moments := ⟨deed, w.disk, w.store⟩ :: w.moments }

def writes (w : World σ) : Nat := w.moments.countP (·.deed = .diskWrite)

def unixTime (w : World σ) : Duration := w.clock.age ⟨⟨1970, 1, 1⟩, 0, 0⟩

def milliseconds (w : World σ) : Nat := w.unixTime.nanoseconds / 1000000

def wait (w : World σ) (d : Duration) : World σ :=
  let later := w.clock.advance d
  if Date.yearInRange later.date.year then { w with clock := later } else w

def beforeStore (env : Surroundings) (call : StoreCall) : StoreM (World σ) Unit := do
  let w ← get
  let nth := w.storeCalls.count call + 1
  let w := { w with storeCalls := call :: w.storeCalls }
  match env.atStore call nth with
  | .proceed => set w
  | .fail cause => set w; throw cause
  | .alter change => set { w with disk := change w.disk }

def noteCall {α : Type} (call : StoreCall) (act : StoreM (World σ) α) : StoreM (World σ) α := do
  let result ← act
  modify (·.mark (.storeCall call))
  return result

def reach (env : Surroundings) (store : VectorStore σ) : VectorStore (World σ) :=
  let inner := (store.onPart (·.store) fun s w => { w with store := s }).guarded (beforeStore env)
  { upsert := fun entities => noteCall .upsert (inner.upsert entities)
    deleteByPath := fun path => noteCall .deleteByPath (inner.deleteByPath path)
    deleteIds := fun ids => noteCall .deleteIds (inner.deleteIds ids)
    updatePath := fun source target => noteCall .updatePath (inner.updatePath source target)
    countForPath := fun path => noteCall .countForPath (inner.countForPath path) }

end World

end CodeIndex
