import Std.Data.ExtTreeMap
import CodeIndex.Bytes
import CodeIndex.Change.NameStatus

namespace CodeIndex.Git

inductive Item where
  | file (content : ByteArray)
  | link (target : String)
deriving DecidableEq, Inhabited

def Item.bytes : Item → ByteArray
  | .file content => content
  | .link target => target.toUTF8

def Item.isFile : Item → Bool
  | .file _ => true
  | .link _ => false

abbrev Snapshot := Std.ExtTreeMap String Item

def pathBelow? (directory : List String) (path : String) : Option String :=
  let names := (Text.splitOn '/' path.toList).map String.ofList
  if directory.isPrefixOf names && directory.length < names.length then
    some ("/".intercalate (names.drop directory.length))
  else none

def Snapshot.below (s : Snapshot) (directory : List String) : Snapshot :=
  if directory.isEmpty then s
  else .ofList (s.toList.filterMap fun (path, item) =>
    (pathBelow? directory path).map (·, item))

def changeAt (path : String) : Option Item → Option Item → Option DiffRecord
  | none, none => none
  | none, some _ => some (.added path)
  | some _, none => some (.deleted path)
  | some old, some new =>
    if old = new then none
    else if old.isFile = new.isFile then some (.modified path)
    else some (.retyped path)

def pathsOf (old new : Snapshot) : List String := sortedPaths (old.keys ++ new.keys)

def plainChanges (old new : Snapshot) : List DiffRecord :=
  (pathsOf old new).filterMap fun path => changeAt path old[path]? new[path]?

end CodeIndex.Git
