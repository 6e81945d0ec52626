import CodeIndex.Change.Confirm
import CodeIndex.Change.NameStatus
import CodeIndex.Change.Target
import CodeIndex.Git.View

namespace CodeIndex

structure Detection where
  changes : ChangeSet
  source : ChangeSource
  head : Option String
  skipped : List String
deriving DecidableEq, Repr, Inhabited

/-- A tree as detection sees it: its single paths, the files of a walk through it, and its version
control. -/
structure TreeView where
  look : String → FileState
  files : List String
  git : Git.View

def FileFilter.treeView (f : FileFilter) (d : Disk) (git : Git.View) : TreeView where
  look := f.inspect d
  files := f.scan d
  git := git

def reportedPaths (bytes : ByteArray) : List String := DiffEntry.fields bytes

/-- The paths where the tree differs from the commit that is checked out. -/
inductive HeadDivergence where
  | noHistory
  | unknown
  | paths (found : Std.ExtTreeSet String)
deriving DecidableEq, Inhabited

def HeadDivergence.contains : HeadDivergence → String → Bool
  | .noHistory, _ => false
  | .unknown, _ => true
  | .paths found, path => found.contains path

def DiffEntry.paths : DiffEntry → List String
  | .added path | .modified path | .deleted path => [path]
  | .renamed source target => [source, target]

namespace TreeView

def head (t : TreeView) : Option String := if t.git.isWorkTree then t.git.head else none

def diff (t : TreeView) (range : Git.DiffRange) : Except IndexError (List DiffEntry) :=
  match t.git.diff range with
  | .error reason => .error (.git reason)
  | .ok bytes => DiffEntry.parse bytes

def untracked (t : TreeView) : Except IndexError (List String) :=
  match t.git.untracked with
  | .error reason => .error (.git reason)
  | .ok bytes => .ok (reportedPaths bytes)

def rangeFor (t : TreeView) (reference : Option String) :
    DiffTarget → Except IndexError (Option Git.DiffRange)
  | .branchBase branch =>
    match t.git.mergeBase branch "HEAD" with
    | .ok base => .ok (some (.between base "HEAD"))
    | .error reason => .error (.git reason)
  | target => .ok <| reference.bind fun commit =>
    if t.git.commitExists commit then
      match target with
      | .head => some (.between commit "HEAD")
      | .staged => some (.staged commit)
      | _ => some (.working commit)
    else none

def gitCandidates (t : TreeView) (reference : Option String) (target : DiffTarget) :
    Except IndexError (Option ChangeSet) := do
  match ← t.rangeFor reference target with
  | none => return none
  | some range =>
    let changes := DiffEntry.changes (← t.diff range)
    if target = .workingTree then
      let new ← t.untracked
      return some (.ofLists (changes.added ++ new) changes.modified changes.deleted changes.renamed)
    else return some changes

def hashScan (t : TreeView) (m : Manifest) : Confirmed :=
  confirm m t.look (.ofLists t.files [] (m.deletedFrom t.files) [])

def detect (t : TreeView) (m : Manifest) (reference : Option String) (target : DiffTarget) :
    Detection :=
  let scanned (source : ChangeSource) : Detection :=
    let c := t.hashScan m
    ⟨c.changes, source, t.head, c.skipped⟩
  if m.isEmpty then scanned .firstRun
  else if t.head.isNone then scanned .hashFallback
  else
    match t.gitCandidates reference target with
    | .ok (some candidates) =>
      let c := confirm m t.look (candidates.withRechecks m.divergedPaths)
      ⟨c.changes, .git, t.head, c.skipped⟩
    | _ => scanned .hashFallback

def detectAll (t : TreeView) (m : Manifest) : Detection :=
  let present := t.files.filter fun path => (t.look path).isPresent
  let skipped := t.files.filter fun path => t.look path == .unreadable
  { changes := .ofLists (present.filter fun path => (m.get? path).isNone)
      (present.filter fun path => (m.get? path).isSome)
      (m.deletedFrom (present ++ skipped)) []
    source := .full
    head := t.head
    skipped := skipped }

/-- Where the tree differs from the commit that is checked out. -/
def headDivergence (t : TreeView) : HeadDivergence :=
  if t.head.isNone then .noHistory
  else
    match t.diff (.working "HEAD"), t.untracked with
    | .ok entries, .ok new => .paths (.ofList (new ++ entries.flatMap (·.paths)))
    | _, _ => .unknown

end TreeView

end CodeIndex
