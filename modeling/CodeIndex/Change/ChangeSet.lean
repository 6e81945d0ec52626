import Std.Data.ExtTreeSet
import CodeIndex.Json.Value

namespace CodeIndex

def sortedPaths (paths : List String) : List String := (Std.ExtTreeSet.ofList paths).toList

abbrev comparePairs : String × String → String × String → Ordering :=
  compareLex (compareOn (·.1)) (compareOn (·.2))

def sortedPairs (pairs : List (String × String)) : List (String × String) :=
  (Std.ExtTreeSet.ofList pairs comparePairs).toList

structure ChangeSet where
  added : List String := []
  modified : List String := []
  deleted : List String := []
  renamed : List (String × String) := []
deriving DecidableEq, Repr, Inhabited

namespace ChangeSet

def ofLists (added modified deleted : List String) (renamed : List (String × String)) :
    ChangeSet :=
  ⟨sortedPaths added, sortedPaths modified, sortedPaths deleted, sortedPairs renamed⟩

def jsonMembers (c : ChangeSet) : List (String × Json) :=
  let paths (ps : List String) : Json := .array (ps.map .text)
  [("added", paths c.added), ("modified", paths c.modified), ("deleted", paths c.deleted),
    ("renamed", .array (c.renamed.map fun (a, b) => paths [a, b]))]

def size (c : ChangeSet) : Nat :=
  c.added.length + c.modified.length + c.deleted.length + c.renamed.length

def isEmpty (c : ChangeSet) : Bool := c.size == 0

/-- Every path the change set mentions, at either end of a rename too. -/
def mentioned (c : ChangeSet) : List String :=
  c.added ++ c.modified ++ c.deleted ++ c.renamed.flatMap fun (a, b) => [a, b]

def withRechecks (c : ChangeSet) (paths : List String) : ChangeSet :=
  match paths.filter fun p => !c.mentioned.contains p with
  | [] => c
  | extra => ofLists c.added (c.modified ++ extra) c.deleted c.renamed

end ChangeSet

end CodeIndex
