import CodeIndex.Git.Worktree

namespace CodeIndex.Git

inductive DiffRange where
  | between (old new : String)
  | staged (old : String)
  | working (old : String)
deriving DecidableEq, Repr, Inhabited

structure View where
  isWorkTree : Bool
  head : Option String
  commitExists : String → Bool
  mergeBase : String → String → Except String String
  diff : DiffRange → Except String ByteArray
  untracked : Except String ByteArray

def View.outside : View where
  isWorkTree := false
  head := none
  commitExists _ := false
  mergeBase _ _ := .error "not a git repository"
  diff _ := .error "not a git repository"
  untracked := .error "not a git repository"

def nulTerminated (paths : List String) : ByteArray :=
  paths.foldl (fun bytes path => (bytes ++ path.toUTF8).push 0) .empty

namespace Worktree

/-- A comparison of the trees of a repository, as far as they are below a directory. -/
def compare (w : Worktree) (r : Repository) (directory : List String) :
    DiffRange → Except String (List DiffRecord)
  | .between old new =>
    match r.resolve? old, r.resolve? new with
    | some a, some b => .ok (differences (r.treeOf a) (r.treeOf b))
    | _, _ => .error "bad revision"
  | .staged old =>
    match r.resolve? old, w.index? r with
    | some a, some index => .ok (differences (r.treeOf a) index)
    | none, _ => .error "bad revision"
    | _, none => .error "index file corrupt"
  | .working old =>
    match r.resolve? old, w.index? r with
    | some a, some index => .ok (differences (r.treeOf a) (w.present index))
    | none, _ => .error "bad revision"
    | _, none => .error "index file corrupt"
where
  differences (old new : Snapshot) : List DiffRecord :=
    changes (old.below directory) (new.below directory)

def untrackedBelow (w : Worktree) (index : Snapshot) (directory : List String) : List String :=
  if directory.isEmpty then w.untracked index
  else (w.untracked index).filterMap (pathBelow? directory)

/-- The answers in a directory of the tree, given by its names, about the tree as it stands. -/
def viewBelow (w : Worktree) (directory : List String) : View :=
  match w.found? with
  | none => .outside
  | some r =>
    if r.isBare then .outside
    else {
      isWorkTree := true
      head := r.headCommit?
      commitExists := fun commit => (r.resolve? (commit ++ "^\x7bcommit\x7d")).isSome
      mergeBase := fun a b =>
        match r.resolve? a, r.resolve? b with
        | some a, some b =>
          match r.mergeBase? a b with
          | some base => .ok base
          | none => .error ""
        | _, _ => .error "not a valid object name"
      diff := fun range => (w.compare r directory range).map DiffRecord.report
      untracked :=
        match w.index? r with
        | some index => .ok (nulTerminated (w.untrackedBelow index directory))
        | none => .error "index file corrupt" }

def view (w : Worktree) : View := w.viewBelow []

/-- The answers in the directory that a path leads to. The directory of the repository is not in
the tree. -/
def viewFrom (w : Worktree) (path : String) : View :=
  match w.disk.locate path with
  | .error _ => .outside
  | .ok place =>
    let directory := place.drop w.place.length
    if w.place.isPrefixOf place && w.disk.lookup place = some .directory
        && !directory.contains ".git" then
      w.viewBelow directory
    else .outside

end Worktree

end CodeIndex.Git
