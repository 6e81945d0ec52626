import Std.Data.ExtTreeMap
import CodeIndex.Bytes
import CodeIndex.Text.Line

namespace CodeIndex

abbrev Location := List String

inductive DiskNode where
  | directory
  | file (content : ByteArray) (modified : Nat)
  | link (target : String)
deriving DecidableEq, Inhabited

/-- What stands at each location; the root directory is always there. -/
structure Disk where
  nodes : Std.ExtTreeMap Location DiskNode := ∅
deriving DecidableEq, Inhabited

inductive DiskError where
  | notFound
  | notDirectory
  | isDirectory
  | alreadyExists
  | notEmpty
  | tooManyLinks
  | nameTooLong
  | invalidPath
deriving DecidableEq, Repr, Inhabited

def DiskError.message : DiskError → String
  | .notFound => "No such file or directory (os error 2)"
  | .notDirectory => "Not a directory (os error 20)"
  | .isDirectory => "Is a directory (os error 21)"
  | .alreadyExists => "File exists (os error 17)"
  | .notEmpty => "Directory not empty (os error 39)"
  | .tooManyLinks => "Too many levels of symbolic links (os error 40)"
  | .nameTooLong => "File name too long (os error 36)"
  | .invalidPath => "file name contained an unexpected NUL byte"

namespace Disk

def lookup (d : Disk) : Location → Option DiskNode
  | [] => some .directory
  | place => d.nodes[place]?

def steps (path : String) : List String :=
  let pieces := Text.splitOn '/' path.toList
  let names := (pieces.filter (!·.isEmpty)).map String.ofList
  if path.toList.getLast? == some '/' then names ++ ["."] else names

def longestName : Nat := 255

/-- Goes along some names from a directory. `follow` goes on from a link: from its directory,
with its target and the names that are left. The last name may lead to nothing. -/
def walkSteps (d : Disk) (follow : Location → String → List String → Except DiskError Location) :
    Location → List String → Except DiskError Location
  | place, [] => .ok place
  | place, name :: rest =>
    if name = "." then walkSteps d follow place rest
    else if name = ".." then walkSteps d follow place.dropLast rest
    else if longestName < name.utf8ByteSize then .error .nameTooLong
    else
      let next := place ++ [name]
      match d.lookup next with
      | none => if rest.isEmpty then .ok next else .error .notFound
      | some .directory => walkSteps d follow next rest
      | some (.file _ _) => if rest.isEmpty then .ok next else .error .notDirectory
      | some (.link target) => follow place target rest

def walk (d : Disk) : Nat → Location → List String → Except DiskError Location
  | 0, place, names => walkSteps d (fun _ _ _ => .error .tooManyLinks) place names
  | links + 1, place, names =>
    walkSteps d (fun place target rest =>
      walk d links (if target.toList.head? == some '/' then [] else place) (steps target ++ rest))
      place names

def linkLimit : Nat := 40

def locate (d : Disk) (path : String) : Except DiskError Location :=
  if path.toList.any (· == Char.ofNat 0) then .error .invalidPath
  else walk d linkLimit [] (steps path)

def stat (d : Disk) (path : String) : Except DiskError DiskNode := do
  match d.lookup (← d.locate path) with
  | some node => .ok node
  | none => .error .notFound

/-- The bytes of the file that a path leads to, and when they were written. -/
def readFile (d : Disk) (path : String) : Except DiskError (ByteArray × Nat) := do
  match ← d.stat path with
  | .file content modified => .ok (content, modified)
  | .directory => .error .isDirectory
  | .link _ => .error .tooManyLinks

def hasDirectory (d : Disk) (path : String) : Bool :=
  match d.stat path with
  | .ok .directory => true
  | _ => false

def hasPath (d : Disk) (path : String) : Bool :=
  match d.stat path with
  | .ok _ => true
  | .error _ => false

/-- The names in a directory with what stands there, in order. -/
def children (d : Disk) (place : Location) : List (String × DiskNode) :=
  d.nodes.toList.filterMap fun (found, node) =>
    match place.isPrefixOf found, found.drop place.length with
    | true, [name] => some (name, node)
    | _, _ => none

end Disk

end CodeIndex
