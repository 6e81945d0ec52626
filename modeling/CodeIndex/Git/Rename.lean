import CodeIndex.Git.Similarity
import CodeIndex.Git.Snapshot

/-!
Renames among the differences of two snapshots. A deleted and an added path are one rename if
their items are equal, or if their contents are similar enough; paths with the same file name are
matched first.
-/

namespace CodeIndex.Git

structure Candidate where
  path : String
  item : Item
deriving DecidableEq, Inhabited

def baseName (path : String) : String :=
  String.ofList ((Text.splitOn '/' path.toList).getLastD [])

structure Rename where
  source : String
  target : String
  score : Nat
deriving DecidableEq, Repr, Inhabited

def leastScore : Nat := fullScore / 2

def leastNamedScore : Nat := leastScore + (fullScore - leastScore) / 2

def unused (found : List Rename) (sources : List Candidate) : List Candidate :=
  sources.filter fun s => !found.any (·.source == s.path)

def unmatched (found : List Rename) (targets : List Candidate) : List Candidate :=
  targets.filter fun t => !found.any (·.target == t.path)

/-- The source to take for a target with an equal item: one with the same file name, or the
first. -/
def equalSource (sources : List Candidate) (target : Candidate) : Option Candidate :=
  let equal := sources.filter (·.item == target.item)
  (equal.find? fun s => baseName s.path == baseName target.path).or equal.head?

def equalRenames (sources : List Candidate) (targets : List Candidate) : List Rename :=
  targets.foldl (fun found target =>
    match equalSource (unused found sources) target with
    | some s => found ++ [⟨s.path, target.path, fullScore⟩]
    | none => found) []

def itemSimilarity (source target : Item) (least : Nat) : Nat :=
  match source, target with
  | .file old, .file new => similarity old new least
  | _, _ => 0

def onlyNamed (name : String) (candidates : List Candidate) : Option Candidate :=
  match candidates.filter fun c => baseName c.path == name with
  | [c] => some c
  | _ => none

def namedRenames (sources targets : List Candidate) : List Rename :=
  sources.filterMap fun s =>
    match onlyNamed (baseName s.path) sources, onlyNamed (baseName s.path) targets with
    | some _, some t =>
      let score := itemSimilarity s.item t.item leastNamedScore
      if leastNamedScore ≤ score then some ⟨s.path, t.path, score⟩ else none
    | _, _ => none

def isBetter (a b : Rename) : Bool :=
  if a.score = b.score then
    baseName a.source == baseName a.target && baseName b.source != baseName b.target
  else b.score < a.score

def sourcesKept : Nat := 4

def worstIndex (kept : List Rename) : Nat :=
  (kept.foldl (fun (best : Nat × Option Rename × Nat) r =>
    let (worst, current, i) := best
    match current with
    | none => (i, some r, i + 1)
    | some w => if isBetter w r then (i, some r, i + 1) else (worst, current, i + 1))
    (0, none, 0)).1

def keepIfBetter (kept : List Rename) (r : Rename) : List Rename :=
  if kept.length < sourcesKept then kept ++ [r]
  else
    let i := worstIndex kept
    match kept[i]? with
    | some w => if isBetter r w then kept.set i r else kept
    | none => kept

def bestSources (sources : List Candidate) (target : Candidate) : List Rename :=
  sources.foldl (fun kept s =>
    keepIfBetter kept ⟨s.path, target.path, itemSimilarity s.item target.item leastScore⟩) []

/-- Takes renames in turn, each source and target once, while they are similar enough. -/
def takeRenames : List Rename → List Rename → List Rename
  | found, [] => found
  | found, r :: rest =>
    if r.score < leastScore then found
    else if found.any (fun x => x.target == r.target || x.source == r.source) then
      takeRenames found rest
    else takeRenames (found ++ [r]) rest

def similarRenames (sources targets : List Candidate) : List Rename :=
  takeRenames [] ((targets.flatMap (bestSources sources)).mergeSort fun a b => !isBetter b a)

def renamesOf (sources targets : List Candidate) : List Rename :=
  let equal := equalRenames sources targets
  let named := namedRenames (unused equal sources) (unmatched equal targets)
  let found := equal ++ named
  found ++ similarRenames (unused found sources) (unmatched found targets)

/-- The differences of two snapshots, with renames in the place of what they join. -/
def changes (old new : Snapshot) : List DiffRecord :=
  let plain := plainChanges old new
  let sources := plain.filterMap fun
    | .deleted path => old[path]?.map (Candidate.mk path)
    | _ => none
  let targets := plain.filterMap fun
    | .added path => new[path]?.map (Candidate.mk path)
    | _ => none
  let renames := renamesOf sources targets
  plain.filterMap fun
    | .deleted path =>
      if renames.any (·.source == path) then none else some (.deleted path)
    | .added path =>
      match renames.find? (·.target == path) with
      | some r => some (.renamed (r.score * 100 / fullScore) r.source path)
      | none => some (.added path)
    | record => some record

end CodeIndex.Git
