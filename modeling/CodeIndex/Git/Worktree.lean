import CodeIndex.Disk.Change
import CodeIndex.Git.Repository
import CodeIndex.Scan.Walk

namespace CodeIndex.Git

structure Worktree where
  disk : Disk
  root : String
  repository : Option Repository := none
deriving Inhabited

namespace Worktree

def ownPath (w : Worktree) (name : String) : String := Path.join w.root (".git/" ++ name)

def place (w : Worktree) : Location := (w.disk.locate w.root).toOption.getD []

def namesOf (path : String) : List String := (Text.splitOn '/' path.toList).map String.ofList

def itemAt (w : Worktree) (path : String) : Option Item :=
  match w.disk.lookup (w.place ++ namesOf path) with
  | some (.file content _) => some (.file content)
  | some (.link target) => some (.link target)
  | _ => none

def allPaths (w : Worktree) : List String :=
  let place := w.place
  sortedPaths (w.disk.nodes.toList.filterMap fun (found, node) =>
    let names := found.drop place.length
    if place.isPrefixOf found && node != .directory && !names.contains ".git" then
      some ("/".intercalate names)
    else none)

def withoutBraces (line : String) : String :=
  String.ofList (line.toList.flatMap fun c =>
    if c == '\x7b' || c == '\x7d' || c == ',' then ['\\', c] else [c])

def rulesAt (w : Worktree) (path : String) : List IgnoreRule :=
  match w.disk.readFile path with
  | .ok (content, _) => (IgnoreRule.fileLines content).filterMap fun line =>
    match IgnoreRule.ofLine true (withoutBraces line) with
    | .ok rule => rule
    | .error _ => none
  | .error _ => []

def rulesAround (w : Worktree) (names : List String) : List DirectoryRules :=
  ((List.range names.length).map fun n =>
    let directory := "/".intercalate (w.root :: names.take n)
    { directory := directory
      own := []
      tracked := w.rulesAt (Path.join directory ".gitignore")
      untracked := if n = 0 then w.rulesAt (w.ownPath "info/exclude") else [] }).reverse

def isIgnored (w : Worktree) (path : String) : Bool :=
  let names := namesOf path
  (List.range names.length).any fun n =>
    let front := names.take (n + 1)
    let isDirectory := n + 1 < names.length
    DirectoryRules.verdict (w.rulesAround front) ("/".intercalate (w.root :: front)) isDirectory
      == .ignored

def indexMark : ByteArray := "DIRC".toUTF8

def index? (w : Worktree) (r : Repository) : Option Snapshot :=
  match w.disk.readFile (w.ownPath "index") with
  | .ok (content, _) => if content = indexMark then some r.index else none
  | .error _ => some ∅

def headText : Head → String
  | .branch name => "ref: refs/heads/" ++ name ++ "\n"
  | .detached commit => commit ++ "\n"

def headOfText? (text : String) : Option Head :=
  let cs := (Text.trim text).toList
  let start := "ref: refs/heads/".toList
  if start.isPrefixOf cs then some (.branch (String.ofList (cs.drop start.length)))
  else if cs.length = 40 && cs.all fun c => (Text.hexValue? c).isSome then
    some (.detached (String.ofList cs))
  else none

def found? (w : Worktree) : Option Repository := do
  let r ← w.repository
  if r.isBare then some r
  else
    let (text, _) ← (w.disk.readFile (w.ownPath "HEAD")).toOption
    let head ← headOfText? (Text.lossy text)
    if w.disk.hasDirectory (w.ownPath "objects") && w.disk.hasDirectory (w.ownPath "refs") then
      some { r with head := head }
    else none

def untracked (w : Worktree) (index : Snapshot) : List String :=
  w.allPaths.filter fun path => !index.contains path && !w.isIgnored path

/-- The tracked paths that the tree has, with what it has there. -/
def present (w : Worktree) (index : Snapshot) : Snapshot :=
  index.filterMap fun path _ => w.itemAt path

def putItem (w : Worktree) (path : String) (item : Item) : Worktree :=
  let names := namesOf path
  let place := w.place
  let made := (List.range (names.length - 1)).foldl (fun d n =>
    let directory := place ++ names.take (n + 1)
    if d.lookup directory = some .directory then d else (d.drop directory).put directory .directory)
    w.disk
  let node : DiskNode := match item with
    | .file content => .file content 0
    | .link target => .link target
  { w with disk := (made.drop (place ++ names)).put (place ++ names) node }

def pruneFrom (d : Disk) (place : Location) : Nat → List String → Disk
  | 0, _ => d
  | _, [] => d
  | n + 1, names =>
    let directory := place ++ names
    if d.lookup directory = some .directory && (d.children directory).isEmpty then
      pruneFrom ⟨d.nodes.erase directory⟩ place n names.dropLast
    else d

def removeItem (w : Worktree) (path : String) : Worktree :=
  let names := namesOf path
  match w.itemAt path with
  | none => w
  | some _ =>
    let d : Disk := ⟨w.disk.nodes.erase (w.place ++ names)⟩
    { w with disk := pruneFrom d w.place names.length names.dropLast }

def keep (w : Worktree) (r : Repository) : Worktree :=
  if r.isBare then { w with repository := some r }
  else
    let put (d : Disk) (name : String) (content : ByteArray) : Disk :=
      match d.locate (w.ownPath name) with
      | .ok place => d.put place (.file content 0)
      | .error _ => d
    let d := put (put w.disk "HEAD" (headText r.head).toUTF8) "index" indexMark
    { w with repository := some r, disk := d }

end Worktree

end CodeIndex.Git
