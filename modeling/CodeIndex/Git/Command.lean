import CodeIndex.Git.View

namespace CodeIndex.Git

inductive Command where
  | init (bare : Bool) (branch : String)
  | addAll
  | add (paths : List String) (force : Bool)
  | commit (message : String) (all allowEmpty : Bool)
  | amend (message : Option String) (all allowEmpty : Bool)
  | checkout (target : String)
  | checkoutNew (branch : String) (start : String)
  | checkoutOrphan (branch : String)
  | restore (source : Option String) (paths : List String)
  | move (sources : List String) (target : String)
  | remove (paths : List String) (cached force recursive : Bool)
  | merge (message : Option String) (source : String) (fastForward : Bool)
  | tag (name target : String)
  | branch (name start : String)
  | dropBranches (names : List String)
  | reset (hard : Bool) (soft : Bool) (target : String)
deriving Repr, Inhabited

namespace Worktree

def writable? (w : Worktree) : Option (Repository × Snapshot) := do
  let r ← w.found?
  if r.isBare || w.disk.hasPath (w.ownPath "index.lock") then none
  else
    let index ← w.index? r
    some ({ r with index := index }, index)

def createRepository (w : Worktree) (bare : Bool) (branch : String) : Option Worktree :=
  match w.found? with
  | some _ => some w
  | none =>
    let inside (name : String) := if bare then Path.join w.root name else w.ownPath name
    let directories := ["objects/info", "objects/pack", "refs/heads", "refs/tags", "info"]
    let made := directories.foldl (fun d name => (d.makeDirectoryAll (inside name)).toOption.getD d)
      w.disk
    let r : Repository := { isBare := bare, head := .branch branch }
    let written := (made.writeFile (inside "HEAD") (headText r.head).toUTF8 0).toOption.getD made
    some { w with disk := written, repository := some r }

def stage (w : Worktree) (index : Snapshot) (path : String) : Snapshot :=
  match w.itemAt path with
  | some item => index.insert path item
  | none => index.erase path

def cleanPath (path : String) : String :=
  "/".intercalate ((Disk.steps path).filter (· != "."))

def isWithin (place path : String) : Bool :=
  place.isEmpty || path == place || (place ++ "/").toList.isPrefixOf path.toList

def addPaths (w : Worktree) (r : Repository) (index : Snapshot) (paths : List String)
    (force : Bool) : Option Worktree :=
  let known := sortedPaths (index.keys ++ w.allPaths)
  let wanted := paths.map cleanPath
  if wanted.all fun place => known.any (isWithin place) then
    let chosen := known.filter fun path => wanted.any fun place => isWithin place path
    let kept := chosen.filter fun path => index.contains path || force || !w.isIgnored path
    let refused := wanted.any fun place =>
      !place.isEmpty && !index.contains place && !force && w.isIgnored place
    let staged := w.keep { r with index := kept.foldl w.stage index }
    if refused then none else some staged
  else none

def commitIndex (w : Worktree) (r : Repository) (message : String) (allowEmpty : Bool)
    (merged : List String) : Option Worktree :=
  let parents := r.headCommit?.toList ++ merged
  if (Text.trim message).isEmpty then none
  else if !allowEmpty && merged.isEmpty && r.index = r.headTree then none
  else some (w.keep (r.addCommit ⟨r.index, parents, message⟩))

def amendCommit (w : Worktree) (r : Repository) (message : Option String) (allowEmpty : Bool) :
    Option Worktree := do
  let last ← r.headCommit?.bind fun id => r.commits[id]?
  let message := message.getD last.message
  if (Text.trim message).isEmpty then none
  else if !allowEmpty && last.parents.length ≤ 1 && r.index = r.treeOf last.parents.head? then none
  else some (w.keep (r.addCommit ⟨r.index, last.parents, message⟩))

/-- What a path becomes when `new` is checked out over `old`: nothing if that would lose what is
staged or changed. The first part is the index's item, the second says that the tree changes. -/
def switchAt (w : Worktree) (old new index : Snapshot) (path : String) :
    Option (Option Item × Bool) :=
  let before := old[path]?
  let after := new[path]?
  let staged := index[path]?
  if before = after then some (staged, false)
  else if staged = after then some (staged, false)
  else if staged = before then
    match staged, w.itemAt path with
    | none, some _ => if w.isIgnored path then some (after, true) else none
    | none, none => some (after, true)
    | some item, some there => if there = item then some (after, true) else none
    | some _, none => some (after, true)
  else none

/-- Brings index and tree from one snapshot to another, unless that would lose something. -/
def switchTree (w : Worktree) (r : Repository) (old new : Snapshot) :
    Option (Worktree × Repository) := do
  let paths := sortedPaths (old.keys ++ new.keys ++ r.index.keys)
  let found ← paths.mapM fun path => (w.switchAt old new r.index path).map (path, ·)
  let index := found.foldl (fun (index : Snapshot) (path, item, _) =>
    match item with
    | some item => index.insert path item
    | none => index.erase path) ∅
  let changed := found.filter fun (_, _, change) => change
  let cleared := changed.foldl (fun w (path, _, _) => removeItem w path) w
  let written := changed.foldl (fun w (path, item, _) =>
    match item with
    | some item => putItem w path item
    | none => w) cleared
  some (written, { r with index := index })

def checkoutTo (w : Worktree) (r : Repository) (target : String) : Option Worktree := do
  let target := if target == "-" then "" else target
  let head ← match r.branches[target]? with
    | some _ => some (Head.branch target)
    | none => (r.resolve? target).map Head.detached
  let commit := match head with
    | .branch name => r.branches[name]?
    | .detached commit => some commit
  let (w, r) ← w.switchTree r r.headTree (r.treeOf commit)
  some (w.keep { r with head := head })

def restorePaths (w : Worktree) (r : Repository) (source : Option String) (paths : List String) :
    Option Worktree := do
  let items ← match source with
    | none => some r.index
    | some name => (r.resolve? name).map fun commit => r.treeOf (some commit)
  let wanted := paths.map cleanPath
  if wanted.all fun place => items.keys.any (isWithin place) then
    let chosen := items.toList.filter fun (path, _) => wanted.any fun place => isWithin place path
    let w := chosen.foldl (fun w (path, item) =>
      if w.itemAt path = some item then w else putItem w path item) w
    let index := chosen.foldl (fun (found : Snapshot) (path, item) => found.insert path item)
      r.index
    some (w.keep { r with index := index })
  else none

def movePaths (w : Worktree) (r : Repository) (sources : List String) (target : String) :
    Option Worktree := do
  let target := cleanPath target
  let intoDirectory := w.disk.hasDirectory (Path.join w.root target)
  if sources.length != 1 && !intoDirectory then none
  else
    (sources.map cleanPath).foldlM (fun w source => do
      let r ← w.found?
      let name := (Disk.steps source).getLastD source
      let goal := if intoDirectory then (if target.isEmpty then name else target ++ "/" ++ name)
        else target
      let moved := r.index.keys.filter (isWithin source)
      if moved.isEmpty || w.disk.hasPath (Path.join w.root goal) then none
      else
        let d ← (w.disk.rename (Path.join w.root source) (Path.join w.root goal)).toOption
        let index := moved.foldl (fun (index : Snapshot) path =>
          match index[path]? with
          | some item =>
            (index.erase path).insert
              (goal ++ String.ofList (path.toList.drop source.toList.length)) item
          | none => index) r.index
        some ({ w with disk := d }.keep { r with index := index })) (w.keep r)

def removePaths (w : Worktree) (r : Repository) (paths : List String)
    (cached force recursive : Bool) : Option Worktree :=
  let wanted := paths.map cleanPath
  let chosen := r.index.keys.filter fun path => wanted.any fun place => isWithin place path
  let allFound := wanted.all fun place => r.index.keys.any (isWithin place)
  let needsRecursive := wanted.any fun place => !r.index.contains place
  let safe := chosen.all fun path =>
    let staged := r.index[path]?
    let committed := r.headTree[path]?
    let there := w.itemAt path
    if cached then staged = committed || staged = there
    else (there = none || there = staged) && staged = committed
  if !allFound || (needsRecursive && !recursive) || (!force && !safe) then none
  else
    let index := chosen.foldl (fun (index : Snapshot) path => index.erase path) r.index
    let w := if cached then w else chosen.foldl removeItem w
    some (w.keep { r with index := index })

/-- What three sides make of a path: nothing where both changed it in different ways. -/
def mergeAt (base ours theirs : Option Item) : Option (Option Item) :=
  if ours = theirs then some ours
  else if ours = base then some theirs
  else if theirs = base then some ours
  else none

def mergeFrom (w : Worktree) (r : Repository) (message : Option String) (source : String)
    (fastForward : Bool) : Option Worktree := do
  let theirs ← r.resolve? source
  let ours ← r.headCommit?
  if (r.ancestors ours).contains theirs then some w
  else
    let base ← r.mergeBase? ours theirs
    let theirTree := r.treeOf (some theirs)
    if base == ours && fastForward then
      let (w, r) ← w.switchTree r r.headTree theirTree
      let r := match r.head with
        | .branch name => { r with branches := r.branches.insert name theirs }
        | .detached _ => { r with head := .detached theirs }
      some (w.keep r)
    else
      if r.index != r.headTree then none
      else
        let baseTree := r.treeOf (some base)
        let ourTree := r.headTree
        let paths := sortedPaths (baseTree.keys ++ ourTree.keys ++ theirTree.keys)
        let merged ← paths.foldlM (fun (tree : Snapshot) path =>
          (mergeAt baseTree[path]? ourTree[path]? theirTree[path]?).map fun item =>
            match item with
            | some item => tree.insert path item
            | none => tree) ∅
        let (w, r) ← w.switchTree r ourTree merged
        let text := message.getD ("Merge branch '" ++ source ++ "'")
        w.commitIndex r text true [theirs]

def resetTo (w : Worktree) (r : Repository) (hard soft : Bool) (target : String) :
    Option Worktree := do
  let commit ← r.resolve? target
  let tree := r.treeOf (some commit)
  let moved := match r.head with
    | .branch name => { r with branches := r.branches.insert name commit }
    | .detached _ => { r with head := .detached commit }
  if soft then some (w.keep moved)
  else if hard then
    let gone := r.index.keys.filter fun path => !tree.contains path
    let w := gone.foldl removeItem w
    let w := tree.toList.foldl (fun w (path, item) =>
      if w.itemAt path = some item then w else putItem w path item) w
    some (w.keep { moved with index := tree })
  else some (w.keep { moved with index := tree })

def run (w : Worktree) : Command → Option Worktree
  | .init bare branch => w.createRepository bare branch
  | .addAll => do
    let (r, index) ← w.writable?
    let paths := sortedPaths (index.keys ++ w.untracked index)
    some (w.keep { r with index := paths.foldl w.stage index })
  | .add paths force => do
    let (r, index) ← w.writable?
    w.addPaths r index paths force
  | .commit message all allowEmpty => do
    let (r, index) ← w.writable?
    let r := if all then { r with index := index.keys.foldl w.stage index } else r
    w.commitIndex r message allowEmpty []
  | .amend message all allowEmpty => do
    let (r, index) ← w.writable?
    let r := if all then { r with index := index.keys.foldl w.stage index } else r
    w.amendCommit r message allowEmpty
  | .checkout target => do
    let (r, index) ← w.writable?
    match w.checkoutTo r target with
    | some w => some w
    | none => if (r.resolve? target).isNone && index.contains (cleanPath target) then
        w.restorePaths r none [target] else none
  | .checkoutNew branch start => do
    let (r, _) ← w.writable?
    if r.branches.contains branch then none
    else if start.isEmpty || start == "HEAD" then
      let r := match r.headCommit? with
        | some commit => { r with branches := r.branches.insert branch commit }
        | none => r
      some (w.keep { r with head := .branch branch })
    else
      let commit ← r.resolve? start
      let (w, r) ← w.switchTree r r.headTree (r.treeOf (some commit))
      some (w.keep
        { r with branches := r.branches.insert branch commit, head := .branch branch })
  | .checkoutOrphan branch => do
    let (r, _) ← w.writable?
    if r.branches.contains branch then none else some (w.keep { r with head := .branch branch })
  | .restore source paths => do
    let (r, _) ← w.writable?
    w.restorePaths r source paths
  | .move sources target => do
    let (r, _) ← w.writable?
    w.movePaths r sources target
  | .remove paths cached force recursive => do
    let (r, _) ← w.writable?
    w.removePaths r paths cached force recursive
  | .merge message source fastForward => do
    let (r, _) ← w.writable?
    w.mergeFrom r message source fastForward
  | .tag name target => do
    let r ← w.found?
    let commit ← r.resolve? target
    if r.tags.contains name then none
    else some { w with repository := some { r with tags := r.tags.insert name commit } }
  | .branch name start => do
    let r ← w.found?
    let commit ← r.resolve? start
    if r.branches.contains name then none
    else some { w with repository := some { r with branches := r.branches.insert name commit } }
  | .dropBranches names => do
    let r ← w.found?
    if names.isEmpty || names.any fun name => !r.branches.contains name || r.head = .branch name then
      none
    else
      let branches := names.foldl (fun branches name => branches.erase name) r.branches
      some { w with repository := some { r with branches := branches } }
  | .reset hard soft target => do
    let (r, _) ← w.writable?
    w.resetTo r hard soft target

end Worktree

def splitOptions (args : List String) : List String × List String :=
  args.partition fun a => a.toList.head? == some '-' && a.length != 1

/-- Takes the message that follows `-m`, also at the end of joined flags, out of some arguments. -/
def takeMessage : List String → List String × Option String
  | [] => ([], none)
  | flags :: message :: rest =>
    let cs := flags.toList
    if cs.head? == some '-' && cs.getLast? == some 'm' && cs[1]? != some '-' then
      let before := String.ofList cs.dropLast
      (if before == "-" then rest else before :: rest, some message)
    else
      let (rest, found) := takeMessage (message :: rest)
      (flags :: rest, found)
  | [last] => ([last], none)

def takeValue (flag : String) : List String → List String × Option String
  | [] => ([], none)
  | first :: rest =>
    if first == flag then (rest.drop 1, rest.head?)
    else
      let (more, found) := takeValue flag rest
      (first :: more, found)

def hasFlag (letter : Char) (options : List String) : Bool :=
  options.any fun o => o.toList[1]? != some '-' && (o.toList.drop 1).contains letter

def Command.ofArgs? (args : List String) : Option Command :=
  let (front, afterDashes) := match args.span (· != "--") with
    | (front, _ :: paths) => (front, some paths)
    | (front, []) => (front, none)
  match front with
  | "init" :: rest =>
    let (rest, short) := takeValue "-b" rest
    let (options, _) := splitOptions rest
    some (.init (options.contains "--bare") (short.getD "main"))
  | "add" :: rest =>
    let (options, paths) := splitOptions rest
    let paths := paths ++ afterDashes.getD []
    if paths.isEmpty then
      if hasFlag 'A' options || options.contains "--all" then some .addAll else none
    else some (.add paths (hasFlag 'f' options || options.contains "--force"))
  | "commit" :: rest =>
    let (rest, message) := takeMessage rest
    let (options, _) := splitOptions rest
    let all := hasFlag 'a' options || options.contains "--all"
    let allowEmpty := options.contains "--allow-empty"
    if !options.contains "--amend" then message.map fun m => .commit m all allowEmpty
    else if message.isSome || options.contains "--no-edit" then
      some (.amend message all allowEmpty)
    else none
  | "checkout" :: rest =>
    let (rest, fresh) := takeValue "-b" rest
    let (rest, orphan) := takeValue "--orphan" rest
    let (_, names) := splitOptions rest
    match fresh, orphan, afterDashes with
    | some name, _, _ => some (.checkoutNew name (names.headD "HEAD"))
    | _, some name, _ => some (.checkoutOrphan name)
    | _, _, some paths =>
      if paths.isEmpty then names.head?.map .checkout else some (.restore names.head? paths)
    | _, _, none =>
      match names with
      | [name] => if name == "." then some (.restore none ["."]) else some (.checkout name)
      | source :: paths => some (.restore (some source) paths)
      | [] => none
  | "switch" :: rest =>
    let (rest, fresh) := takeValue "-c" rest
    let (_, names) := splitOptions rest
    match fresh with
    | some name => some (.checkoutNew name (names.headD "HEAD"))
    | none => names.head?.map .checkout
  | "restore" :: rest =>
    let (_, names) := splitOptions rest
    some (.restore none (names ++ afterDashes.getD []))
  | "mv" :: rest =>
    let (_, names) := splitOptions rest
    match (names ++ afterDashes.getD []).reverse with
    | target :: source :: more => some (.move (source :: more).reverse target)
    | _ => none
  | "rm" :: rest =>
    let (options, names) := splitOptions rest
    some (.remove (names ++ afterDashes.getD []) (options.contains "--cached")
      (hasFlag 'f' options || options.contains "--force") (hasFlag 'r' options))
  | "merge" :: rest =>
    let (rest, message) := takeMessage rest
    let (options, names) := splitOptions rest
    names.head?.map fun source => .merge message source (!options.contains "--no-ff")
  | "tag" :: rest =>
    let (_, names) := splitOptions rest
    names.head?.map fun name => .tag name (names[1]?.getD "HEAD")
  | "branch" :: rest =>
    let (options, names) := splitOptions rest
    if hasFlag 'D' options then some (.dropBranches names)
    else names.head?.map fun name => .branch name (names[1]?.getD "HEAD")
  | "reset" :: rest =>
    let (options, names) := splitOptions rest
    some (.reset (options.contains "--hard") (options.contains "--soft") (names.headD "HEAD"))
  | _ => none

end CodeIndex.Git
