import CodeIndex.Change.ChangeSet
import CodeIndex.Change.FileState
import CodeIndex.State.Manifest

/-!
Confirmation of candidate changes: every candidate is looked at and compared with its record, so
that a file with the recorded content is never listed. Files that vanished from one path and
appeared at another with the same content are renames.
-/

namespace CodeIndex

/-- What candidates come to: paths to be compared with their records, paths to be found gone,
renames, and targets that cannot be read. -/
structure Sorting where
  check : List String := []
  gone : List String := []
  renames : List (String × String) := []
  skipped : List String := []
deriving DecidableEq, Repr, Inhabited

namespace Sorting

def addRename (m : Manifest) (look : String → FileState) (s : Sorting)
    (ends : String × String) : Sorting :=
  let (source, target) := ends
  match m.get? source, look target with
  | some _, .present _ =>
    if (look source).isPresent then { s with check := s.check ++ [source, target] }
    else { s with renames := s.renames ++ [(source, target)] }
  | some _, .unreadable => { s with skipped := s.skipped ++ [target] }
  | some _, _ => { s with gone := s.gone ++ [source] }
  | none, _ => { s with check := s.check ++ [target] }

def ofCandidates (m : Manifest) (look : String → FileState) (candidates : ChangeSet) : Sorting :=
  candidates.renamed.foldl (addRename m look)
    { check := candidates.added ++ candidates.modified, gone := candidates.deleted }

def paths (s : Sorting) : List String := sortedPaths (s.check ++ s.gone)

end Sorting

inductive Comparison where
  | same
  | added (hash : ContentHash)
  | modified
  | deleted
  | skipped
deriving DecidableEq, Repr, Inhabited

def compareRecord (record : Option FileRecord) : FileState → Comparison
  | .present hash =>
    match record with
    | none => .added hash
    | some r => if r.contentHash = hash then .same else .modified
  | .missing | .excluded => if record.isSome then .deleted else .same
  | .unreadable => .skipped

structure Pairing where
  added : List String
  deleted : List String
  renamed : List (String × String)
deriving DecidableEq, Repr, Inhabited

def deletedWith (m : Manifest) (deleted : List String) (hash : ContentHash) : List String :=
  deleted.filter fun path => (m.get? path).any (·.contentHash == hash)

/-- The deleted path to pair with an addition: the only one with its hash, if the addition is the
only one too. -/
def partnerOf (m : Manifest) (added : List (String × ContentHash)) (deleted : List String)
    (hash : ContentHash) : Option String :=
  match added.filter (·.2 == hash), deletedWith m deleted hash with
  | [_], [source] => some source
  | _, _ => none

/-- Pairs deleted and added paths with the same content. -/
def pairRenames (m : Manifest) (added : List (String × ContentHash)) (deleted : List String) :
    Pairing :=
  let renamed := added.filterMap fun (path, hash) =>
    (partnerOf m added deleted hash).map (·, path)
  { added := (added.filter fun (_, hash) => (partnerOf m added deleted hash).isNone).map (·.1)
    deleted := deleted.filter fun path => !renamed.any (·.1 == path)
    renamed := renamed }

structure Confirmed where
  changes : ChangeSet
  skipped : List String
deriving DecidableEq, Repr, Inhabited

/-- Confirms candidate changes, as `look` sees the paths. -/
def confirm (m : Manifest) (look : String → FileState) (candidates : ChangeSet) : Confirmed :=
  let sorting := Sorting.ofCandidates m look candidates
  let compared := sorting.paths.map fun path => (path, compareRecord (m.get? path) (look path))
  let added := compared.filterMap fun
    | (path, .added hash) => some (path, hash)
    | _ => none
  let having (c : Comparison) := (compared.filter (·.2 == c)).map (·.1)
  let pairing := pairRenames m added (having .deleted)
  { changes := .ofLists pairing.added (having .modified) pairing.deleted
      (sorting.renames ++ pairing.renamed)
    skipped := sortedPaths (sorting.skipped ++ having .skipped) }

end CodeIndex
