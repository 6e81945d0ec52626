import CodeIndex.Json.Value
import CodeIndex.Time.Duration

namespace CodeIndex

structure Pace where
  filesDone : Nat
  elapsed : Duration
  remaining : Nat
deriving DecidableEq, Repr, Inhabited

def Pace.eta (p : Pace) : Duration := ⟨p.remaining * p.elapsed.nanoseconds / p.filesDone⟩

structure ProgressSnapshot where
  filesTotal : Nat := 0
  filesDone : Nat := 0
  entitiesTotal : Nat := 0
  entitiesDone : Nat := 0
  batchesDone : Nat := 0
  pace : Option Pace := none
deriving DecidableEq, Repr, Inhabited

def ProgressSnapshot.toJson (s : ProgressSnapshot) : Json :=
  .record [("files_total", .nat s.filesTotal), ("files_done", .nat s.filesDone),
    ("entities_total", .nat s.entitiesTotal), ("entities_done", .nat s.entitiesDone),
    ("batches_done", .nat s.batchesDone)]

structure Progress where
  current : ProgressSnapshot := {}
  published : List ProgressSnapshot := []
deriving DecidableEq, Repr, Inhabited

namespace Progress

def publish (p : Progress) : Progress := { p with published := p.current :: p.published }

def visible (p : Progress) : ProgressSnapshot := p.published.headD {}

def start (p : Progress) (files : Nat) : Progress :=
  publish { p with current := { filesTotal := files } }

def found (p : Progress) (entities : Nat) : Progress :=
  { p with current := { p.current with entitiesTotal := p.current.entitiesTotal + entities } }

def paceAfter (s : ProgressSnapshot) (elapsed : Duration) : Option Pace :=
  if elapsed = .zero ∨ s.filesDone = 0 then none
  else some ⟨s.filesDone, elapsed, s.filesTotal - s.filesDone⟩

def batchDone (p : Progress) (files entities : Nat) (elapsed : Duration) : Progress :=
  let counted := { p.current with
    filesDone := p.current.filesDone + files
    entitiesDone := p.current.entitiesDone + entities
    batchesDone := p.current.batchesDone + 1 }
  publish { p with current := { counted with pace := paceAfter counted elapsed } }

def settled (p : Progress) (files : Nat) : Progress :=
  publish { p with current := { p.current with filesDone := p.current.filesDone + files } }

end Progress

end CodeIndex
