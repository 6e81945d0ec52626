import CodeIndex.Digest.Fingerprint
import CodeIndex.Git.Rename
import CodeIndex.Text.Hex

namespace CodeIndex.Git

structure Commit where
  tree : Snapshot
  parents : List String
  message : String
deriving DecidableEq, Inhabited

inductive Head where
  | branch (name : String)
  | detached (commit : String)
deriving DecidableEq, Repr, Inhabited

structure Repository where
  isBare : Bool := false
  commits : Std.ExtTreeMap String Commit := ∅
  branches : Std.ExtTreeMap String String := ∅
  tags : Std.ExtTreeMap String String := ∅
  head : Head := .branch "main"
  index : Snapshot := ∅
deriving DecidableEq, Inhabited

def Commit.fields (c : Commit) : List String :=
  c.tree.toList.flatMap (fun (path, item) =>
    [path, if item.isFile then "file" else "link", Digest.contentHash item.bytes])
    ++ "parents" :: c.parents ++ ["message", c.message]

def Commit.id (c : Commit) : String := String.ofList ((Digest.fieldsDigest c.fields).toList.take 40)

namespace Repository

def headCommit? (r : Repository) : Option String :=
  match r.head with
  | .branch name => r.branches[name]?
  | .detached commit => some commit

def treeOf (r : Repository) (commit : Option String) : Snapshot :=
  match commit.bind fun id => r.commits[id]? with
  | some c => c.tree
  | none => ∅

def headTree (r : Repository) : Snapshot := r.treeOf r.headCommit?

def parentsOf (r : Repository) (commit : String) : List String :=
  match r.commits[commit]? with
  | some c => c.parents
  | none => []

def history (r : Repository) : Nat → List String → List String → List String
  | 0, found, _ => found
  | _, found, [] => found
  | steps + 1, found, commit :: rest =>
    if found.contains commit then history r steps found rest
    else history r steps (found ++ [commit]) (rest ++ r.parentsOf commit)

def historyBound (r : Repository) : Nat :=
  r.commits.toList.foldl (fun n (_, c) => n + c.parents.length + 1) 1

def ancestors (r : Repository) (commit : String) : List String :=
  r.history r.historyBound [] [commit]

def mergeBase? (r : Repository) (a b : String) : Option String :=
  let shared := (r.ancestors a).filter (r.ancestors b).contains
  shared.find? fun c => !shared.any fun d => d != c && (r.ancestors d).contains c

def named? (r : Repository) (name : String) : Option String :=
  let cs := name.toList
  let after (start : String) : Option String :=
    if start.toList.isPrefixOf cs then some (String.ofList (cs.drop start.length)) else none
  let tag (n : String) : Option String := r.tags[n]?
  let branch (n : String) : Option String := r.branches[n]?
  ((((((after "refs/tags/").bind tag).or ((after "refs/heads/").bind branch)).or
    ((after "tags/").bind tag)).or ((after "heads/").bind branch)).or (tag name)).or (branch name)

def abbreviated? (r : Repository) (digits : String) : Option String :=
  if 4 ≤ digits.length && digits.toList.all fun c => (Text.hexValue? c).isSome then
    match r.commits.keys.filter fun id => (digits.toLower.toList).isPrefixOf id.toList with
    | [id] => some id
    | _ => none
  else none

def base? (r : Repository) (name : String) : Option String :=
  if name == "HEAD" || name == "@" then r.headCommit?
  else ((if r.commits.contains name then some name else none).or (r.named? name)).or
    (r.abbreviated? name)

def firstParent? (r : Repository) : Nat → String → Option String
  | 0, commit => some commit
  | steps + 1, commit =>
    match r.parentsOf commit with
    | parent :: _ => firstParent? r steps parent
    | [] => none

def countAt (cs : List Char) : Nat × List Char :=
  match cs.span Char.isDigit with
  | ([], rest) => (1, rest)
  | (digits, rest) => (digits.foldl (fun n c => n * 10 + (c.toNat - '0'.toNat)) 0, rest)

/-- Goes on from a commit along `~n`, `^n` and `^{commit}`; each round reads one of them. -/
def follow? (r : Repository) : Nat → String → List Char → Option String
  | _, commit, [] => some commit
  | 0, _, _ => none
  | rounds + 1, commit, '~' :: rest =>
    let (count, rest) := countAt rest
    (r.firstParent? count commit).bind fun c => follow? r rounds c rest
  | rounds + 1, commit, '^' :: '\x7b' :: rest =>
    let (kind, rest) := rest.span (· != '\x7d')
    if kind.isEmpty || kind == "commit".toList then follow? r rounds commit (rest.drop 1) else none
  | rounds + 1, commit, '^' :: rest =>
    let (count, rest) := countAt rest
    if count = 0 then follow? r rounds commit rest
    else ((r.parentsOf commit)[count - 1]?).bind fun c => follow? r rounds c rest
  | _, _, _ => none

def resolve? (r : Repository) (text : String) : Option String :=
  let (name, steps) := text.toList.span fun c => c != '~' && c != '^'
  if text.toList.head? == some '-' then none
  else (r.base? (String.ofList name)).bind fun c => r.follow? (steps.length + 1) c steps

def addCommit (r : Repository) (c : Commit) : Repository :=
  let id := c.id
  let r := { r with commits := r.commits.insert id c }
  match r.head with
  | .branch name => { r with branches := r.branches.insert name id }
  | .detached _ => { r with head := .detached id }

end Repository

end CodeIndex.Git
