import CodeIndex.Json.Decode

namespace CodeIndex

structure RetryPolicy where
  maxAttempts : Nat := 2
  baseBackoff : Duration := .ofMillis 500
  maxBackoff : Duration := .ofSecs 8
  callTimeout : Duration := .ofSecs 60
deriving DecidableEq, Repr, Inhabited

namespace RetryPolicy

def immediate (maxAttempts : Nat) : RetryPolicy where
  maxAttempts := maxAttempts
  baseBackoff := .zero
  maxBackoff := .zero
  callTimeout := .ofSecs 60

/-- The wait after an attempt, counted from one: it doubles sixteen times at most, and never
exceeds the longest wait. -/
def backoffFor (p : RetryPolicy) (attempt : Nat) : Duration :=
  (p.baseBackoff.scale (Nat.pow 2 (min (attempt - 1) 16))).min p.maxBackoff

def allowsRetry (p : RetryPolicy) (attempts : Nat) : Bool := attempts < max p.maxAttempts 1

def toJson (p : RetryPolicy) : Json :=
  .record [("max_attempts", .nat p.maxAttempts), ("base_backoff", .ofDuration p.baseBackoff),
    ("max_backoff", .ofDuration p.maxBackoff), ("call_timeout", .ofDuration p.callTimeout)]

def ofJson? (value : Json) : Option RetryPolicy := do
  let fields ←
    Json.slots ["max_attempts", "base_backoff", "max_backoff", "call_timeout"] false value
  match fields with
  | [attempts, base, longest, timeout] =>
    let usual : RetryPolicy := {}
    some {
      maxAttempts := ← attempts.withDefault usual.maxAttempts Json.u32?
      baseBackoff := ← base.withDefault usual.baseBackoff Json.duration?
      maxBackoff := ← longest.withDefault usual.maxBackoff Json.duration?
      callTimeout := ← timeout.withDefault usual.callTimeout Json.duration? }
  | _ => none

end RetryPolicy

end CodeIndex
