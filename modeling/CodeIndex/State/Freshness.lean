import CodeIndex.Json.Decode
import CodeIndex.State.Checkpoint

namespace CodeIndex

inductive StaleReason where
  | neverIndexed | runIncomplete | commitBehind | timeExpired
deriving DecidableEq, Repr, Inhabited

namespace StaleReason

def all : List StaleReason := [neverIndexed, runIncomplete, commitBehind, timeExpired]

def name : StaleReason → String
  | .neverIndexed => "never_indexed"
  | .runIncomplete => "run_incomplete"
  | .commitBehind => "commit_behind"
  | .timeExpired => "time_expired"

def word : StaleReason → String
  | .neverIndexed => "NeverIndexed"
  | .runIncomplete => "RunIncomplete"
  | .commitBehind => "CommitBehind"
  | .timeExpired => "TimeExpired"

def ofName? (s : String) : Option StaleReason := all.find? fun reason => reason.name == s

end StaleReason

structure Freshness where
  reasons : List StaleReason
  lastIndexedCommit : Option String
  currentHead : Option String
  ageSecs : Option Nat
deriving DecidableEq, Repr, Inhabited

namespace Freshness

def isStale (f : Freshness) : Bool := !f.reasons.isEmpty

def neverCompleted (c : Checkpoint) : Bool :=
  c.status != .completed && c.lastIndexedCommit.isNone

def isBehind (c : Checkpoint) (head : Option String) : Bool :=
  head.isSome && c.lastIndexedCommit != head && !neverCompleted c

def reasonsFor (c : Checkpoint) (head : Option String) (age : Duration)
    (maxAge : Option Duration) : List StaleReason :=
  (if neverCompleted c then [.neverIndexed] else [])
    ++ (if c.status.isResumable then [.runIncomplete] else [])
    ++ (if isBehind c head then [.commitBehind] else [])
    ++ (if maxAge.any (· < age) then [.timeExpired] else [])

def assess (checkpoint : Option Checkpoint) (head : Option String) (now : Timestamp)
    (maxAge : Option Duration) : Freshness :=
  match checkpoint with
  | none => ⟨[.neverIndexed], none, head, none⟩
  | some c =>
    let age := now.age c.timestamp
    ⟨reasonsFor c head age maxAge, c.lastIndexedCommit, head, some age.secs⟩

def memberOf {α : Type} (name : String) (write : α → Json) :
    Option α → List (String × Json)
  | none => []
  | some a => [(name, write a)]

def toJson (f : Freshness) : Json :=
  .record ([("stale", .bool f.isStale), ("reasons", .array (f.reasons.map (.text ·.name)))]
    ++ memberOf "last_indexed_commit" .text f.lastIndexedCommit
    ++ memberOf "current_head" .text f.currentHead
    ++ memberOf "age_secs" .nat f.ageSecs)

end Freshness

end CodeIndex
